import FioSsd.Generator.Buflen
import FioSsd.Generator.First
import FioSsd.Setup.Maps
import Mathlib.Order.CompletePartialOrder

/-! # Blocks that are taken from the random map -/

namespace FioSsd

open FioFile Bitmap History Align Nat Except

namespace FioFile

variable {file file' file'' : FioFile} {block nrBlocks n m k b : Nat} {word : BitVec 64}

def mapBit (file : FioFile) (i j : Nat) : Bool :=
  match file.fileMap with
  | none => false
  | some map => (map i).getLsbD j

lemma marked_iff : file.Marked b ↔ file.mapBit (randMapIdx b) (randMapBit b) = true := by
  unfold Marked mapBit
  cases file.fileMap with
  | none => simp
  | some map => simp

/-- Of `nrBlocks` blocks from `block` on, the first `n` are taken from the map of `file`: the
longest run that is free. -/
structure Takes (file : FioFile) (block nrBlocks n : Nat) (file' : FioFile) : Prop where
  le : n ≤ nrBlocks
  free : ∀ b, block ≤ b → b < block + n → ¬file.Marked b
  longest : n < nrBlocks → file.Marked (block + n)
  same : ∃ map, file' = { file with fileMap := map }
  isSome : file'.fileMap.isSome = file.fileMap.isSome
  bits : ∀ i j, file'.mapBit i j = true ↔ file.mapBit i j = true ∨
    ∃ b, block ≤ b ∧ b < block + n ∧ randMapIdx b = i ∧ randMapBit b = j

lemma randomMapFree_iff {free : Bool} (h : file.randomMapFree block = .ok free) :
    free = true ↔ ¬file.Marked block := by
  obtain ⟨word, hwr, h⟩ := of_bind h
  cases h
  obtain ⟨map, hmap, rfl⟩ := mapWord_eq_ok hwr
  have hbit : randMapBit block < 64 := mod_lt _ (by decide)
  have hone : 1#64 <<< randMapBit block = mask 64 (randMapBit block) 1 := by
    rw [mask, if_neg (by decide)]
    rfl
  rw [decide_eq_true_eq, hone, and_mask_eq_zero_iff hbit]
  constructor
  · rintro hcl ⟨map', hmp', hset⟩
    cases hmap.symm.trans hmp'
    rw [hcl _ le_rfl (lt_succ_self _)] at hset
    cases hset
  · intro hnot i hle hlt
    obtain rfl : i = randMapBit block := by omega
    by_contra hset
    exact hnot ⟨map, hmap, by simpa using hset⟩

lemma takes_none (file : FioFile) (h : 0 < nrBlocks → file.Marked block) :
    file.Takes block nrBlocks 0 file where
  le := zero_le _
  free := fun b hle hlt => absurd hlt (by omega)
  longest := h
  same := ⟨_, rfl⟩
  isSome := rfl
  bits := by
    intro i j
    refine ⟨.inl, ?_⟩
    rintro (hbit | ⟨b, hle, hlt, -⟩)
    · exact hbit
    · omega

lemma takes_run (hft : randMapBit block + n ≤ 64) (hwr : file.mapWord (randMapIdx block) = .ok word)
    (hcl : ∀ i, randMapBit block ≤ i → i < randMapBit block + n → word.getLsbD i = false) :
    file.Takes block n n
      (file.setMapWord (randMapIdx block) (word ||| mask 64 (randMapBit block) n)) where
  le := le_rfl
  free := fun _ hle hlt => not_marked_of_clear hft hwr hcl hle hlt
  longest := fun h => absurd h (lt_irrefl _)
  same := ⟨_, rfl⟩
  isSome := Option.isSome_map
  bits := by
    intro i j
    obtain ⟨map, hmap, rfl⟩ := mapWord_eq_ok hwr
    simp only [mapBit, setMapWord_fileMap hmap, hmap]
    by_cases hi : i = randMapIdx block
    · subst hi
      rw [Function.update_self, BitVec.getLsbD_or, Bool.or_eq_true]
      refine or_congr_right ⟨fun hbit => ?_, ?_⟩
      · have hj := BitVec.lt_of_getLsbD hbit
        rw [getLsbD_mask hft hj, decide_eq_true_eq] at hbit
        -- the block of the run that has bit `j`
        refine ⟨block + (j - randMapBit block), by omega, by omega, ?_⟩
        unfold randMapIdx randMapBit at *
        omega
      · rintro ⟨b, hle, hlt, hidx, rfl⟩
        obtain ⟨-, hlow, hhg⟩ := randMap_of_mem_run hft hle hlt
        have hb : randMapBit b < 64 := mod_lt _ (by decide)
        rw [getLsbD_mask hft hb, decide_eq_true_eq]
        exact ⟨hlow, hhg⟩
    · rw [Function.update_of_ne hi]
      refine ⟨.inl, ?_⟩
      rintro (hbit | ⟨b, hle, hlt, hidx, -⟩)
      · exact hbit
      · exact absurd (hidx.symm.trans (randMap_of_mem_run hft hle hlt).1) hi

lemma eq_of_randMap {b b' : Nat} (h : randMapIdx b' = randMapIdx b)
    (hbit : randMapBit b' = randMapBit b) (hle : b' ≤ b) (hlt : b < b' + 2 ^ 38) : b' = b := by
  unfold randMapIdx randMapBit at *
  omega

namespace Takes

lemma marked_iff (h : file.Takes block nrBlocks n file') : file'.Marked b ↔ file.Marked b ∨
    ∃ b', block ≤ b' ∧ b' < block + n ∧ randMapIdx b' = randMapIdx b ∧
      randMapBit b' = randMapBit b := by
  rw [FioFile.marked_iff, FioFile.marked_iff]
  exact h.bits _ _

lemma marked_of_mem (h : file.Takes block nrBlocks n file') (hle : block ≤ b) (hlt : b < block + n) :
    file'.Marked b :=
  h.marked_iff.2 (.inr ⟨b, hle, hlt, rfl, rfl⟩)

lemma trans (h : file.Takes block n n file') (h' : file'.Takes (block + n) m k file'')
    (hsh : n + m ≤ 2 ^ 38) : file.Takes block (n + m) (n + k) file'' where
  le := Nat.add_le_add_left h'.le n
  free := by
    intro b hle hlt
    rcases Nat.lt_or_ge b (block + n) with hfr | hrs
    · exact h.free b hle hfr
    · exact fun hmrk => h'.free b hrs (by omega) (h.marked_iff.2 (.inl hmrk))
  longest := by
    intro hlt
    have hmrk := h'.longest (by omega)
    rcases h.marked_iff.1 hmrk with hold | ⟨b', hle, hlt', hidx, hbit⟩
    · rwa [← add_assoc]
    · have heq := eq_of_randMap hidx hbit (by omega) (by omega)
      omega
  same := by
    obtain ⟨map, rfl⟩ := h.same
    obtain ⟨map', rfl⟩ := h'.same
    exact ⟨map', rfl⟩
  isSome := h'.isSome.trans h.isSome
  bits := by
    intro i j
    rw [h'.bits, h.bits, or_assoc]
    refine or_congr_right ⟨?_, ?_⟩
    · rintro (⟨b, hle, hlt, hb⟩ | ⟨b, hle, hlt, hb⟩)
      · exact ⟨b, hle, by omega, hb⟩
      · exact ⟨b, by omega, by omega, hb⟩
    · rintro ⟨b, hle, hlt, hb⟩
      rcases Nat.lt_or_ge b (block + n) with hfr | hrs
      · exact .inl ⟨b, hle, hfr, hb⟩
      · exact .inr ⟨b, hrs, by omega, hb⟩

end Takes

end FioFile

section

variable {o : ThreadOptions} {file file' : FioFile} {ioU ioU' : IoU} {fuel block nrBlocks blocks blocks' : Nat}

lemma markRandomMapLoop_takes (hnr : o.ddirSeqNr = 1) (hsh : nrBlocks ≤ 2 ^ 38)
    (hr : markRandomMapLoop o fuel block nrBlocks blocks file = .ok (blocks', file')) :
    ∃ n, blocks' = blocks + n ∧ file.Takes block nrBlocks n file' := by
  induction fuel generalizing block nrBlocks blocks file with
  | zero =>
    cases nrBlocks with
    | zero =>
      cases hr
      exact ⟨0, rfl, takes_none _ fun h => absurd h (lt_irrefl _)⟩
    | succ nrBlocks => exact absurd hr (by simp [markRandomMapLoop])
  | succ fuel ih =>
    cases nrBlocks with
    | zero =>
      cases hr
      exact ⟨0, rfl, takes_none _ fun h => absurd h (lt_irrefl _)⟩
    | succ nrBlocks =>
      rw [markRandomMapLoop.eq_3 _ _ (nrBlocks + 1) _ _ _ (by simp)] at hr
      obtain ⟨free, hfr, hr⟩ := of_bind hr
      rw [startsFree, if_pos hnr] at hfr
      have hmrk := randomMapFree_iff hfr
      cases free with
      | false =>
        cases hr
        refine ⟨0, rfl, takes_none _ fun _ => ?_⟩
        by_contra hcon
        cases hmrk.2 hcon
      | true =>
        simp only [Bool.not_true, Bool.false_eq_true, if_false] at hr
        split_ifs at hr
        obtain ⟨word, hwr, hr⟩ := of_bind hr
        have hft := thisBlocks_fits block (nrBlocks + 1)
        have hle := thisBlocks_le block (nrBlocks + 1)
        have hpos := thisBlocks_pos block nrBlocks
        have hrnl := freeRun_le word (randMapBit block)
          (FioFile.thisBlocks block (nrBlocks + 1))
        have hcl := fun i => getLsbD_of_lt_freeRun (i := i) (x := word) hft
        generalize hn : freeRun word (randMapBit block)
          (FioFile.thisBlocks block (nrBlocks + 1)) = n at hr hrnl hcl
        have hfir := takes_run (n := n) (by omega) hwr hcl
        by_cases h0 : n = 0
        · -- the first block is free, so a run of it is
          subst h0
          have hset := getLsbD_freeRun hft (hn.symm ▸ hpos)
          obtain ⟨map, hmap, rfl⟩ := mapWord_eq_ok hwr
          rw [hn] at hset
          exact absurd ⟨map, hmap, hset⟩ (hmrk.1 rfl)
        · rw [if_neg h0] at hr
          obtain ⟨k, rfl, hrs⟩ := ih (by omega) hr
          refine ⟨n + k, by omega, ?_⟩
          have htk := hfir.trans hrs (by omega)
          rwa [show n + (nrBlocks + 1 - n) = nrBlocks + 1 by omega] at htk

lemma markRandomMapLoop_ok (hmap : file.fileMap.isSome) (hfl : nrBlocks ≤ fuel)
    (h : ∀ b, b < block + nrBlocks → b / 64 < file.numMaps) :
    ∃ r, markRandomMapLoop o fuel block nrBlocks blocks file = .ok r := by
  induction fuel generalizing block nrBlocks blocks file with
  | zero =>
    obtain rfl : nrBlocks = 0 := by omega
    exact ⟨_, rfl⟩
  | succ fuel ih =>
    cases nrBlocks with
    | zero => exact ⟨_, rfl⟩
    | succ nrBlocks =>
      obtain ⟨map, hso⟩ := Option.isSome_iff_exists.1 hmap
      have hidx : randMapIdx block < file.numMaps :=
        lt_of_le_of_lt (mod_le _ _) (h block (by omega))
      have hwr : file.mapWord (randMapIdx block) = .ok (map (randMapIdx block)) := by
        simp only [mapWord, hso]
        exact if_pos hidx
      have hfr : ∃ free, startsFree o file block = .ok free := by
        unfold startsFree randomMapFree
        split_ifs
        · exact ⟨_, by rw [hwr]; rfl⟩
        · exact ⟨true, rfl⟩
      obtain ⟨free, hfr⟩ := hfr
      rw [markRandomMapLoop.eq_3 _ _ (nrBlocks + 1) _ _ _ (by simp), hfr]
      cases free with
      | false => exact ⟨_, rfl⟩
      | true =>
        change ∃ r, (if randMapIdx block < file.numMaps then _ else _) = ok r
        rw [if_pos hidx, hwr]
        change ∃ r, (if _ = 0 then _ else _) = ok r
        split_ifs with h0
        · exact ⟨_, rfl⟩
        · have hle := freeRun_le (map (randMapIdx block)) (randMapBit block)
            (FioFile.thisBlocks block (nrBlocks + 1))
          have hle' := thisBlocks_le block (nrBlocks + 1)
          refine ih (Option.isSome_map.trans hmap) (by omega) fun b hlt => ?_
          exact h b (by omega)

/-- **What `mark_random_map` does to a first request**: it takes the longest run of free blocks the
    unit starts with, and cuts the unit to them. -/
structure TakesFor (o : ThreadOptions) (file : FioFile) (ioU : IoU) (n : Nat) (ioU' : IoU)
    (file' : FioFile) : Prop where
  takes : file.Takes (History.blockOf o file ioU) (mapBlocksOf o ioU) n file'
  unit : ∃ buflen ≤ ioU.buflen, ioU' = { ioU with buflen := buflen }
  short : ioU'.buflen.toNat ≤ n * o.rwMinBs.toNat

lemma markRandomMap_takes (hnr : o.ddirSeqNr = 1) (hbs : ioU.busyOk = false)
    (h : markRandomMap o file ioU = .ok (ioU', file')) :
    ∃ n, markFree o file ioU = .ok (n, file') ∧ TakesFor o file ioU n ioU' file' := by
  obtain ⟨⟨n, file1⟩, hfr, h⟩ := of_bind h
  obtain ⟨hun, rfl⟩ := ok_pair h
  refine ⟨n, hfr, ?_⟩
  rw [markFree, if_neg (by simp [hbs])] at hfr
  have hsh : mapBlocksOf o ioU ≤ 2 ^ 38 := le_trans (mod_lt _ (by decide)).le (by decide)
  obtain ⟨k, rfl, htk⟩ := markRandomMapLoop_takes hnr hsh hfr
  rw [zero_add] at hun ⊢
  have hby : (BitVec.ofNat 64 (k * o.rwMinBs.toNat % 2 ^ 32)).toNat ≤ k * o.rwMinBs.toNat := by
    rw [BitVec.toNat_ofNat]
    exact le_trans (mod_le _ _) (mod_le _ _)
  split_ifs at hun with hcut
  · subst hun
    exact ⟨htk, ⟨_, BitVec.le_of_lt hcut, rfl⟩, hby⟩
  · subst hun
    exact ⟨htk, ⟨_, BitVec.le_refl _, rfl⟩, le_trans (BitVec.not_lt.1 hcut) hby⟩

def ThreadOptions.SizesFit (o : ThreadOptions) (realFileSize : BitVec 64) : Prop :=
  realFileSize.toNat + o.rwMinBs.toNat - 1 < 2 ^ 64 ∧
    (realFileSize.toNat + o.rwMinBs.toNat - 1) / o.rwMinBs.toNat + 63 < 2 ^ 64

lemma numMapsFor_eq {size : BitVec 64} (h : o.SizesFit size) : (o.numMapsFor size).toNat =
      ((size.toNat + o.rwMinBs.toNat - 1) / o.rwMinBs.toNat + 63) / 64 := by
  have hwd : (o.rwMinBs.setWidth 64).toNat = o.rwMinBs.toNat := BitVec.toNat_setWidth_of_le (by decide)
  have hpos : 0 < (o.rwMinBs.setWidth 64).toNat := hwd ▸ o.rwMinBs_pos
  have hblk := toNat_divUp (x := size) hpos (hwd ▸ h.1)
  rw [hwd] at hblk
  unfold ThreadOptions.numMapsFor
  have hwr := toNat_divUp (m := 64#64)
    (x := (size + o.rwMinBs.setWidth 64 - 1#64) / o.rwMinBs.setWidth 64) (by decide) (by
      rw [hblk]
      exact h.2)
  rw [hblk] at hwr
  exact hwr

/-- The memory for the maps of a file has room for `num_maps` and `2 * num_maps` words, and every block
    of the file has its place in them. -/
structure RandomMaps.Cover (o : ThreadOptions) (size : BitVec 64) (m : RandomMaps) : Prop where
  fileMap : ∃ words ∈ m.fileMap, m.numMaps ≤ words.val
  fileMap2 : ∃ words ∈ m.fileMap2, 2 * m.numMaps ≤ words.val
  blocks : ∀ b, b * o.rwMinBs.toNat < size.toNat → b / 64 < m.numMaps ∧ b / 32 < 2 * m.numMaps

lemma smallocWords_eq {bytes : BitVec 64} {n : Nat} (h : bytes.toNat = n) :
    (smallocWords bytes).val = n % 2 ^ 32 / 8 := by
  rw [← h, ← BitVec.toNat_setWidth]
  rfl

/-- The maps are large enough exactly if the larger one takes less than 4 GiB: `smalloc` takes its size
    as an `unsigned int`. -/
theorem allocMaps_cover_iff (o : ThreadOptions) (size : BitVec 64) (allocs : MapAllocs)
    (hsize : size.toNat ≤ 2 ^ 63) :
    ((allocMaps o size allocs).2.numMaps ≠ 0 → (allocMaps o size allocs).2.Cover o size) ↔
      (allocs.fileMap && allocs.fileMap2 → (o.numMapsFor size).toNat < 2 ^ 28) := by
  have hbs := o.rwMinBs.isLt
  have hpos := o.rwMinBs_pos
  have hblk : (size.toNat + o.rwMinBs.toNat - 1) / o.rwMinBs.toNat ≤ 2 ^ 63 + 2 ^ 32 :=
    (Nat.div_le_self _ _).trans (by omega)
  have hnum := @numMapsFor_eq o size ⟨by omega, by omega⟩
  have heg : (8 : BitVec 64).toNat = 8 := rfl
  have htwo : (2 : BitVec 64).toNat = 2 := rfl
  have hwr : (smallocWords (o.numMapsFor size * 8)).val =
      (o.numMapsFor size).toNat * 8 % 2 ^ 32 / 8 :=
    smallocWords_eq (by rw [BitVec.toNat_mul, heg]; exact Nat.mod_eq_of_lt (by omega))
  have hwr2 : (smallocWords (2 * o.numMapsFor size * 8)).val =
      2 * (o.numMapsFor size).toNat * 8 % 2 ^ 32 / 8 := by
    refine smallocWords_eq ?_
    rw [BitVec.toNat_mul, BitVec.toNat_mul, heg, htwo]
    exact (Nat.mod_mul_mod _ _ _).trans (Nat.mod_eq_of_lt (by omega))
  unfold allocMaps
  cases allocs.fileMap <;> cases allocs.fileMap2
  case true.true =>
    simp only [Bool.and_self, if_true, forall_const]
    constructor
    · intro hcv
      by_contra hbig
      obtain ⟨-, ⟨words, hmem, hle⟩, -⟩ := hcv (by omega)
      cases hmem
      dsimp only at hle
      omega
    · intro hlow _
      refine ⟨⟨_, rfl, ?_⟩, ⟨_, rfl, ?_⟩, fun b hb => ?_⟩ <;> dsimp only
      · omega
      · omega
      have hla : b < (size.toNat + o.rwMinBs.toNat - 1) / o.rwMinBs.toNat := by
        refine (Nat.le_div_iff_mul_le hpos).2 ?_
        rw [Nat.succ_mul]
        omega
      omega
  all_goals exact iff_of_true (fun hne => absurd rfl hne) nofun

theorem allocMaps_cover_small : (allocMaps default 65536 ⟨true, true⟩).2.Cover default 65536 :=
  (allocMaps_cover_iff default 65536 ⟨true, true⟩ (by decide)).2 (fun _ => by decide) (by decide)

/-- A file of 2^46 bytes in blocks of 4 KiB needs 2^28 words; `smalloc` is asked for no byte of the
    second map. -/
theorem allocMaps_too_small : (allocMaps default (2 ^ 46) ⟨true, true⟩).2.numMaps = 2 ^ 28 ∧
    (allocMaps default (2 ^ 46) ⟨true, true⟩).2.fileMap2 = some 0 := by
  decide

lemma numMapsFor_zero {size : BitVec 64} (h : ¬o.SizesFit size) : o.numMapsFor size = 0 := by
  have hwd : (o.rwMinBs.setWidth 64).toNat = o.rwMinBs.toNat := BitVec.toNat_setWidth_of_le (by decide)
  have hpos : 0 < (o.rwMinBs.setWidth 64).toNat := hwd ▸ o.rwMinBs_pos
  unfold ThreadOptions.SizesFit at h
  unfold ThreadOptions.numMapsFor
  by_cases hsum : size.toNat + o.rwMinBs.toNat - 1 < 2 ^ 64
  · have hblk := toNat_divUp (x := size) hpos (hwd.symm ▸ hsum)
    rw [hwd] at hblk
    refine divUp_eq_zero (m := 64#64)
      (x := (size + o.rwMinBs.setWidth 64 - 1#64) / o.rwMinBs.setWidth 64) (by decide) ?_
    rw [hblk]
    exact Nat.le_of_not_lt fun hlt => h ⟨hsum, hlt⟩
  · have hblk := divUp_eq_zero (x := size) hpos (hwd.symm ▸ Nat.le_of_not_lt hsum)
    change ((size + o.rwMinBs.setWidth 64 - 1#64) / o.rwMinBs.setWidth 64 + 64 - 1) / 64 = 0
    rw [hblk]
    decide

/-- The random map of a file as `init_random_map` leaves it, for the outcomes of its allocations. -/
structure FioFile.HasMap (o : ThreadOptions) (allocs : MapAllocs) (file : FioFile) : Prop where
  init : (allocMaps o file.realFileSize allocs).1 = false
  isSome : file.fileMap.isSome = true
  numMaps : file.numMaps = (allocMaps o file.realFileSize allocs).2.numMaps

structure FioFile.Holds (file : FioFile) (ioU : IoU) : Prop where
  start : file.fileOffset.toNat ≤ ioU.offset.toNat
  within : ioU.offset.toNat + ioU.buflen.toNat ≤ file.realFileSize.toNat

lemma FioFile.Holds.blocks_le (h : file.Holds ioU) (hfit : o.SizesFit file.realFileSize) :
    blockOf o file ioU + mapBlocksOf o ioU ≤
      (file.realFileSize.toNat + o.rwMinBs.toNat - 1) / o.rwMinBs.toNat := by
  have hwd : (o.rwMinBs.setWidth 64).toNat = o.rwMinBs.toNat := BitVec.toNat_setWidth_of_le (by decide)
  have hpos : 0 < (o.rwMinBs.setWidth 64).toNat := hwd ▸ o.rwMinBs_pos
  have hst := h.start
  have hwth := h.within
  have hnr : nrBlkOf o ioU = (ioU.buflen.toNat + o.rwMinBs.toNat - 1) / o.rwMinBs.toNat := by
    have hsum := toNat_add_sub_one hpos ioU.buflen
    rw [hwd, Nat.mod_eq_of_lt (by have := hfit.1; omega)] at hsum
    exact congrArg (· / o.rwMinBs.toNat) hsum
  calc blockOf o file ioU + mapBlocksOf o ioU
      ≤ (ioU.offset.toNat - file.fileOffset.toNat) / o.rwMinBs.toNat +
          (ioU.buflen.toNat + o.rwMinBs.toNat - 1) / o.rwMinBs.toNat := by
        rw [blockOf, mapBlocksOf, BitVec.toNat_sub_of_le hst, hnr]
        exact Nat.add_le_add_left (Nat.mod_le _ _) _
    _ ≤ (ioU.offset.toNat - file.fileOffset.toNat + ioU.buflen.toNat + o.rwMinBs.toNat - 1) /
          o.rwMinBs.toNat := div_add_divUp_le o.rwMinBs_pos
    _ ≤ (file.realFileSize.toNat + o.rwMinBs.toNat - 1) / o.rwMinBs.toNat :=
        Nat.div_le_div_right (by omega)

lemma markRandomMap_ok {allocs : MapAllocs} (hmap : file.HasMap o allocs)
    (h : allocs.fileMap = true ∧ allocs.fileMap2) (hfit : o.SizesFit file.realFileSize)
    (hhl : file.Holds ioU) : ∃ r, markRandomMap o file ioU = .ok r := by
  have hle := hhl.blocks_le hfit
  have hnum : file.numMaps =
      ((file.realFileSize.toNat + o.rwMinBs.toNat - 1) / o.rwMinBs.toNat + 63) / 64 := by
    rw [hmap.numMaps, ← numMapsFor_eq hfit]
    rw [allocMaps, h.1, h.2]
    rfl
  have hfr : ∃ r, markFree o file ioU = .ok r := by
    unfold markFree
    split_ifs
    · exact ⟨_, rfl⟩
    · refine markRandomMapLoop_ok hmap.isSome le_rfl fun b hlt => ?_
      rw [hnum]
      omega
  obtain ⟨r, hr⟩ := hfr
  rw [markRandomMap, hr]
  exact ⟨_, rfl⟩

end

section

variable (scale : Scale) (randMax : Nat) (o : ThreadOptions) (ioHistLen : Int)

/-- `fill_io_u` for a read or write up to where it marks the blocks. -/
def pickRequest (s : Fill) (d : FillDraws) : Except Fault (Bool × Fill) := do
  let (failed, s) ← getNextOffset scale o ioHistLen s d.rand
  if failed then return (true, s)
  else
    let buflen ← getNextBuflen scale randMax o s.file s.ioU d.sizes
    let s := { s with ioU := { s.ioU with buflen := buflen.setWidth 64 } }
    return (decide (buflen = 0 ∨ s.file.realFileSize < s.ioU.offset + s.ioU.buflen), s)

def restartsMap (file : FioFile) (ddir : Ddir) (r : RandDraws) : Bool :=
  o.timeBased && okAnd (getNextRandOffset scale o file ddir r.first) (·.1.isNone)

def Fill.directed (s : Fill) (d : FillDraws) : Fill := switchZone o { s with ioU := d.directed s.ioU }

def blocksTaken (file : FioFile) (ioU : IoU) : Set Nat :=
  { b | ∃ n file', markFree o file ioU = .ok (n, file') ∧
    History.blockOf o file ioU ≤ b ∧ b < History.blockOf o file ioU + n }

structure Fill.Anew (s : Fill) : Prop where
  seqNr : s.ddirSeqNr = 1
  busyOk : s.ioU.busyOk = false

/-- The requests that `fill_io_u` accepts for a file while its map is not reset, with the blocks
    taken for each; in between the map is left alone. -/
inductive Accepts (file₀ : FioFile) : List (Set Nat) → FioFile → Prop
  | start : Accepts file₀ [] file₀
  | other {taken : List (Set Nat)} {file file' : FioFile} : Accepts file₀ taken file →
      file'.fileMap = file.fileMap → Accepts file₀ taken file'
  | fill {taken : List (Set Nat)} {s s₁ s' : Fill} {d : FillDraws} : Accepts file₀ taken s.file →
      s.Anew → ddirRw d.ddir = true → History.fileRandommap o s.file = true →
      restartsMap scale o (s.directed o d).file d.ddir d.rand = false →
      pickRequest scale randMax o ioHistLen (s.directed o d) d = .ok (false, s₁) →
      fillIoU scale randMax o false ioHistLen s d = .ok (false, s') →
      Accepts file₀ (blocksTaken o s₁.file s₁.ioU :: taken) s'.file

variable {scale randMax o ioHistLen} {s s' s₁ : Fill} {d : FillDraws} {file file' : FioFile}

lemma getNextBuflen_dvd {ioU : IoU} {sizes : List Nat} {buflen : BitVec 32}
    (h : getNextBuflen scale randMax o file ioU sizes = .ok buflen) :
    (o.minBsOf ioU.ddir).toNat ∣ buflen.toNat := by
  unfold getNextBuflen at h
  simp only at h
  split_ifs at h
  · rw [← ok.inj h]
  · rw [← ok.inj h]
    exact dvd_zero _
  · obtain ⟨b, -, h⟩ := of_bind h
    rw [← ok.inj h, toNat_div_mul]
    exact dvd_mul_left _ _

lemma fillRw_marks (h : fillRw scale randMax o ioHistLen s d = .ok (false, s')) :
    ∃ s₁, pickRequest scale randMax o ioHistLen s d = .ok (false, s₁) ∧
      markMaps o s₁.file s₁.ioU = .ok (s'.ioU, s'.file) := by
  obtain ⟨⟨failed, s2⟩, hoff, h⟩ := of_bind h
  cases failed with
  | true => cases h
  | false =>
    obtain ⟨buflen, hbfl, h⟩ := of_bind h
    simp only at h
    split_ifs at h with h0 hrl
    · cases h
    · cases h
    · obtain ⟨⟨ioU, file⟩, hmr, h⟩ := of_bind h
      cases h
      refine ⟨{ s2 with ioU := { s2.ioU with buflen := buflen.setWidth 64 } },
        bind_eq_ok.2 ⟨_, hoff, bind_eq_ok.2 ⟨_, hbfl, ?_⟩⟩, hmr⟩
      exact congrArg (fun failed => ok (failed, _)) (decide_eq_false (not_or.2 ⟨h0, hrl⟩))

lemma getNextRandBlock_searched (hsc : ScalesInto scale) {ddir : Ddir} {b? : Option Nat}
    {r : RandDraws} (hkp : restartsMap scale o file ddir r = false)
    (h : getNextRandBlock scale o ioHistLen file ddir r = .ok (b?, file')) : file.Searched file' := by
  obtain ⟨⟨found, file1⟩, hfr, h⟩ := of_bind h
  have hsrc := (getNextRandOffset_spec hsc hfr).1
  cases found with
  | some b =>
    cases h
    exact hsrc
  | none =>
    have htm : o.timeBased = false := by
      simpa [restartsMap, hfr, okAnd] using hkp
    simp only [htm, Bool.false_eq_true, if_false] at h
    cases h
    exact hsrc

lemma pickRequest_request (hsc : ScalesInto scale) (hrn : o.ddirRand) (hseq : o.ddirSeqNr = 1)
    (han : s.Anew) (h : pickRequest scale randMax o ioHistLen s d = .ok (false, s')) :
    ∃ b, getNextRandBlock scale o ioHistLen s.file s.ioU.ddir d.rand = .ok (some b, s'.file) ∧
      (s'.ioU.offset - s'.file.fileOffset).toNat = b * (o.baOf s.ioU.ddir).toNat ∧
      s'.ioU.busyOk = false ∧ ∃ buflen : BitVec 32, s'.ioU.buflen = buflen.setWidth 64 ∧ buflen ≠ 0 ∧
        (o.minBsOf s.ioU.ddir).toNat ∣ buflen.toNat := by
  obtain ⟨⟨failed, s₁⟩, hoff, h⟩ := of_bind h
  obtain ⟨-, ⟨offset, hun⟩, b?, hblk, hpl⟩ := getNextOffset_block hrn hseq hsc han.seqNr hoff
  cases failed with
  | true => cases h
  | false =>
    obtain ⟨b, rfl, hst⟩ := hpl rfl
    obtain ⟨buflen, hbfl, h⟩ := of_bind h
    obtain ⟨hok, rfl⟩ := ok_pair h
    rw [decide_eq_false_iff_not, not_or] at hok
    have hbs : s₁.ioU.busyOk = false := by
      rw [hun]
      exact han.busyOk
    have hddi : s₁.ioU.ddir = s.ioU.ddir := by rw [hun]
    refine ⟨b, hblk, hst, hbs, buflen, rfl, hok.1, ?_⟩
    rw [← hddi]
    exact getNextBuflen_dvd hbfl

structure ThreadOptions.TakesBlocks (o : ThreadOptions) : Prop where
  rand : o.ddirRand = true
  map : o.norandommap = false
  seqNr : o.ddirSeqNr = 1
  once : o.randomagain = false

lemma directed_fileMap : (s.directed o d).file.fileMap = s.file.fileMap := by
  unfold Fill.directed switchZone
  split_ifs <;> rfl

lemma directed_ddir : (s.directed o d).ioU.ddir = d.ddir := by
  unfold Fill.directed switchZone
  split_ifs <;> rfl

lemma Fill.Anew.directed (h : s.Anew) : (s.directed o d).Anew := by
  unfold Fill.directed switchZone
  split_ifs <;> exact ⟨h.seqNr, h.busyOk⟩

lemma marked_of_fileMap {b : Nat} (h : file'.fileMap = file.fileMap) : file'.Marked b ↔ file.Marked b := by
  unfold FioFile.Marked
  rw [h]

lemma fillIoU_takes (ho : o.TakesBlocks) (h : ScalesInto scale) (han : s.Anew) (hrw : ddirRw d.ddir)
    (hmap : fileRandommap o s.file)
    (hkp : restartsMap scale o (s.directed o d).file d.ddir d.rand = false)
    (hpc : pickRequest scale randMax o ioHistLen (s.directed o d) d = .ok (false, s₁))
    (hr : fillIoU scale randMax o false ioHistLen s d = .ok (false, s')) :
    (∀ b ∈ blocksTaken o s₁.file s₁.ioU, ¬s.file.Marked b ∧ s'.file.Marked b) ∧
      ∀ b, s.file.Marked b → s'.file.Marked b := by
  rw [← directed_ddir] at hkp
  obtain ⟨b, hblk, -, hbs, -⟩ := pickRequest_request h ho.rand ho.seqNr han.directed hpc
  have hsrc := getNextRandBlock_searched h hkp hblk
  have heq : s₁.file.fileMap = s.file.fileMap := by
    obtain ⟨_, _, hfl⟩ := hsrc
    rw [hfl]
    exact directed_fileMap
  rw [fillIoU, if_neg (by simp), if_pos hrw] at hr
  obtain ⟨s2, hpc', hmr⟩ := fillRw_marks hr
  obtain ⟨-, rfl⟩ := Prod.mk.inj (ok.inj (hpc.symm.trans hpc'))
  rw [markMaps, if_neg (by simp [ho.once])] at hmr
  obtain ⟨⟨ioU, file⟩, htak, hmr⟩ := of_bind hmr
  obtain ⟨-, hfl⟩ := ok_pair hmr
  have hmp1 : fileRandommap o s₁.file = true := by
    unfold fileRandommap at hmap ⊢
    rwa [heq]
  rw [takeBlocks, if_pos (by rw [ho.rand, hmp1]; rfl)] at htak
  obtain ⟨n, hfr, htk⟩ := markRandomMap_takes ho.seqNr hbs htak
  rw [← hfl]
  refine ⟨?_, fun b hmrk => htk.takes.marked_iff.2 (.inl ((marked_of_fileMap heq).2 hmrk))⟩
  rintro b ⟨n', file', hfr', hle, hlt⟩
  obtain ⟨rfl, -⟩ := Prod.mk.inj (ok.inj (hfr.symm.trans hfr'))
  exact ⟨fun hmrk => htk.takes.free b hle hlt ((marked_of_fileMap heq).2 hmrk),
    htk.takes.marked_of_mem hle hlt⟩

lemma Accepts.apart (ho : o.TakesBlocks) (hsc : ScalesInto scale) {file0 : FioFile}
    {taken : List (Set Nat)} (h : Accepts scale randMax o ioHistLen file0 taken file) :
    taken.Pairwise Disjoint ∧ ∀ blocks ∈ taken, ∀ b ∈ blocks, file.Marked b := by
  induction h with
  | start => exact ⟨.nil, nofun⟩
  | other _ heq ih =>
    exact ⟨ih.1, fun blocks hmem b hb => (marked_of_fileMap heq).2 (ih.2 blocks hmem b hb)⟩
  | fill _ han hrw hmap hkp hpc hr ih =>
    obtain ⟨hnew, hold⟩ := fillIoU_takes ho hsc han hrw hmap hkp hpc hr
    refine ⟨List.pairwise_cons.2 ⟨fun blocks hmem => ?_, ih.1⟩, fun blocks hmem b hb => ?_⟩
    · rw [Set.disjoint_left]
      intro b hb hb'
      exact (hnew b hb).1 (ih.2 blocks hmem b hb')
    · rcases List.mem_cons.1 hmem with rfl | hmem
      · exact (hnew b hb).2
      · exact hold b (ih.2 blocks hmem b hb)

/-- **A random map hands out every block once**, for a file of the given size whose map was allocated with
    the given outcomes. -/
structure TakesOnce (scale : Scale) (randMax : Nat) (o : ThreadOptions) (ioHistLen : Int)
    (size : BitVec 64) (allocs : MapAllocs) : Prop where
  /-- No two requests between two resets have a block in common. -/
  apart : ∀ {file₀ taken file}, Accepts scale randMax o ioHistLen file₀ taken file →
    taken.Pairwise Disjoint
  /-- Each call takes the longest run that is free, and nothing else. -/
  longest : ∀ {file ioU ioU' file'}, ioU.busyOk = false →
    markRandomMap o file ioU = .ok (ioU', file') →
    ∃ n, markFree o file ioU = .ok (n, file') ∧ TakesFor o file ioU n ioU' file'
  /-- No call for a range of the file leaves the map. -/
  inside : ∀ file ioU, file.realFileSize = size → file.HasMap o allocs → file.Holds ioU →
    ∃ r, markRandomMap o file ioU = .ok r

lemma markRandomMap_empty {ioU : IoU} (h : ioU.buflen.toNat = 0) :
    ∃ r, markRandomMap o file ioU = .ok r := by
  have hnr : mapBlocksOf o ioU = 0 := by
    have hpos := o.rwMinBs_pos
    rw [mapBlocksOf, nrBlkOf_eq (by omega), h, div_eq_of_lt (by omega), zero_mod]
  have hfr : ∃ r, markFree o file ioU = .ok r := by
    rw [markFree, hnr]
    split_ifs <;> exact ⟨_, rfl⟩
  obtain ⟨r, hr⟩ := hfr
  rw [markRandomMap, hr]
  exact ⟨_, rfl⟩

def unmappedFile (size : BitVec 64) : FioFile :=
  { realFileSize := size, fileMap := some fun _ => 0, numMaps := 0 }

def oneByte : IoU := { buflen := 1 }

lemma markRandomMap_unmapped (h : o.ddirSeqNr = 1) (size : BitVec 64) :
    markRandomMap o (unmappedFile size) oneByte = .error .mapOverrun := by
  have hnr : mapBlocksOf o oneByte = 1 := by
    have hpos := o.rwMinBs_pos
    rw [mapBlocksOf, nrBlkOf_eq (by decide), show oneByte.buflen.toNat = 1 from rfl,
      Nat.add_sub_cancel_left, Nat.div_self hpos]
    rfl
  have hst : ∀ block, startsFree o (unmappedFile size) block = .error .mapOverrun := by
    intro block
    rw [startsFree, if_pos h]
    rfl
  have hfr : markFree o (unmappedFile size) oneByte = .error .mapOverrun := by
    rw [markFree, hnr, if_neg (by decide), markRandomMapLoop.eq_3 _ _ 1 _ _ _ (by simp), hst]
    rfl
  rw [markRandomMap, hfr]
  rfl

/-- **Every block is handed out once** if and only if the file is empty or its map, with both maps
    allocated and no size wrapping, has a word for every block. -/
theorem takesOnce_iff (ho : o.TakesBlocks) (hscale : ScalesInto scale) {size : BitVec 64}
    {allocs : MapAllocs} (hinit : (allocMaps o size allocs).1 = false) (hfile : allocs.fileMap = true) :
    TakesOnce scale randMax o ioHistLen size allocs ↔
      size = 0 ∨ allocs.fileMap2 = true ∧ o.SizesFit size := by
  constructor
  · intro hon
    by_contra hcon
    rw [not_or] at hcon
    have hnum : (allocMaps o size allocs).2.numMaps = 0 := by
      unfold allocMaps
      cases hfl2 : allocs.fileMap2 with
      | false => rw [hfile]; rfl
      | true =>
        have h0 := numMapsFor_zero (fun hfit => hcon.2 ⟨hfl2, hfit⟩)
        rw [hfile, h0]
        rfl
    have hpos := pos_of_ne_zero fun hz => hcon.1 (BitVec.eq_of_toNat_eq hz)
    obtain ⟨r, hr⟩ := hon.inside (unmappedFile size) oneByte rfl ⟨hinit, rfl, hnum.symm⟩
      ⟨le_rfl, hpos⟩
    cases (markRandomMap_unmapped ho.seqNr size).symm.trans hr
  · intro hcn
    refine ⟨fun hrun => (hrun.apart ho hscale).1, markRandomMap_takes ho.seqNr, ?_⟩
    rintro file ioU rfl hmap hhl
    rcases hcn with h0 | ⟨hfl2, hfit⟩
    · have hwth := hhl.within
      rw [h0] at hwth
      exact markRandomMap_empty (by simp at hwth; omega)
    · exact markRandomMap_ok hmap ⟨hfile, hfl2⟩ hfit hhl

def randomOptions : ThreadOptions := { defaultOptions with ddirRand := true }

theorem takesOnce_sixteen : TakesOnce drawScale 0 randomOptions 0 65536 ⟨true, true⟩ :=
  (takesOnce_iff ⟨rfl, rfl, rfl, rfl⟩ drawScale_into rfl rfl).2 (.inr ⟨rfl, by decide, by decide⟩)

/-- With `fill_device` and no `size` the size of the file is `-1ULL`. -/
theorem takesOnce_fillDevice :
    randomOptions.TakesBlocks ∧ (unmappedFile (-1)).HasMap randomOptions ⟨true, true⟩ ∧
      (unmappedFile (-1)).Holds { offset := 20480, buflen := 4096 } ∧
      markRandomMap randomOptions (unmappedFile (-1))
        { offset := 20480, buflen := 4096 } = .error .mapOverrun := by
  refine ⟨⟨rfl, rfl, rfl, rfl⟩, ⟨rfl, rfl, ?_⟩, ⟨?_, ?_⟩, rfl⟩
  all_goals decide

end

end FioSsd
