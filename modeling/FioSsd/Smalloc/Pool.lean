import FioSsd.Lib.Bitmap
import Mathlib.Data.Finset.Card
import Mathlib.Data.Finset.Range
import Mathlib.Logic.Function.Basic
import Mathlib.Order.Interval.Finset.Nat

/-! # A pool of shared memory

A pool of `smalloc.c` is an area of blocks of 32 bytes with a bit for each block. `__smalloc_pool`
looks for a run of clear bits and sets them, `sfree_pool` clears them; all three share one iterator
over the words of the bitmap. -/

namespace FioSsd

open Function BitVec Finset Option Nat Bitmap

variable {i idx nr start : Nat}

structure SmallocPool where
  map : Nat
  bitmap : Nat → BitVec 32
  (freeBlocks nrBlocks nextNonFull : Nat)

def sizeToBlocks (size : Nat) : Nat := (size + 31) % 2 ^ 32 / 32

/-- What `blocks_iter` calls for a word and a mask: the answer and the word behind it. -/
abbrev MaskFunc := BitVec 32 → BitVec 32 → Option (Bool × BitVec 32)

def maskCmp : MaskFunc := fun word mask => some (decide (word &&& mask = 0), word)

def maskClear : MaskFunc := fun word mask =>
  if word &&& mask = mask then some (true, word &&& ~~~mask) else none

def maskSet : MaskFunc := fun word mask =>
  if word &&& mask = 0 then some (true, word ||| mask) else none

/-- The blocks of a run of `nr` from bit `idx` on that `blocks_iter` takes in one word. -/
def thisBlocks (idx nr : Nat) : Nat :=
  if 32 < (nr + idx) % 2 ^ 32 then (2 ^ 32 + 32 - idx) % 2 ^ 32 else nr

def iterMask (this idx : Nat) : BitVec 32 :=
  if this = 32 then BitVec.allOnes 32 else ((1#32 <<< (this % 32)) - 1#32) <<< (idx % 32)

/-- `blocks_iter`, with the words from `poolIdx` on counted by the first argument. -/
def blocksIter (func : MaskFunc) :
    Nat → (Nat → BitVec 32) → Nat → Nat → Nat → Option (Bool × (Nat → BitVec 32))
  | 0, bitmap, _, _, nr => some (decide (nr = 0), bitmap)
  | left + 1, bitmap, poolIdx, idx, nr =>
    if nr = 0 then some (true, bitmap)
    else
      match func (bitmap poolIdx) (iterMask (thisBlocks idx nr) idx) with
      | none => none
      | some (false, _) => some (false, bitmap)
      | some (true, word) =>
        blocksIter func left (update bitmap poolIdx word) (poolIdx + 1) 0
          ((nr + 2 ^ 32 - thisBlocks idx nr) % 2 ^ 32)

variable (bitmap : Nat → BitVec 32)

def blockBit (k : Nat) : Bool := (bitmap (k / 32)).getLsbD (k % 32)

lemma thisBlocks_eq (h : idx < 32) (hnr : nr < 2 ^ 31) : thisBlocks idx nr = min nr (32 - idx) := by
  unfold thisBlocks
  split_ifs <;> omega

lemma iterMask_eq {this : Nat} (h : idx < 32) (hth : this ≤ 32) :
    iterMask this idx = mask 32 idx this := by
  unfold iterMask mask
  by_cases hall : this = 32
  · rw [if_pos hall, if_pos hall]
  · rw [if_neg hall, if_neg hall, mod_eq_of_lt h, mod_eq_of_lt (by omega)]

lemma getLsbD_iterMask (h : idx < 32) (hnr : nr < 2 ^ 31) :
    (iterMask (thisBlocks idx nr) idx).getLsbD i = decide (idx ≤ i ∧ i < idx + nr ∧ i < 32) := by
  rw [thisBlocks_eq h hnr, iterMask_eq h (by omega)]
  by_cases hi : i < 32
  · rw [getLsbD_mask (by omega) hi]
    exact decide_eq_decide.2 (by omega)
  · rw [getLsbD_of_ge _ _ (by omega)]
    simp [hi]

lemma blockBit_update (poolIdx k : Nat) (word : BitVec 32) :
    blockBit (update bitmap poolIdx word) k =
      if k / 32 = poolIdx then word.getLsbD (k % 32) else blockBit bitmap k := by
  unfold blockBit
  by_cases hk : k / 32 = poolIdx
  · rw [if_pos hk, hk, update_self]
  · rw [if_neg hk, update_of_ne hk]

/-- Where the bits of the mask are `old`, the function passes and makes them `new`. -/
def MaskFunc.Writes (func : MaskFunc) (old new : Bool) : Prop :=
  ∀ word mask : BitVec 32, (∀ i, mask.getLsbD i = true → word.getLsbD i = old) →
    ∃ word', func word mask = some (true, word') ∧
      ∀ i, word'.getLsbD i = if mask.getLsbD i = true then new else word.getLsbD i

lemma and_eq_zero_of_clear {word mask : BitVec 32}
    (h : ∀ i, mask.getLsbD i = true → word.getLsbD i = false) : word &&& mask = 0 := by
  refine eq_of_getLsbD_eq fun i _ => ?_
  have := h i
  rw [getLsbD_and]
  cases hms : mask.getLsbD i <;> simp_all

lemma maskCmp_writes : MaskFunc.Writes maskCmp false false := by
  intro word mask hcl
  refine ⟨word, by simp [maskCmp, and_eq_zero_of_clear hcl], fun i => ?_⟩
  split_ifs with hms
  · exact hcl i hms
  · rfl

lemma maskSet_writes : MaskFunc.Writes maskSet false true := by
  intro word mask hcl
  refine ⟨word ||| mask, by rw [maskSet, if_pos (and_eq_zero_of_clear hcl)], fun i => ?_⟩
  rw [getLsbD_or]
  cases mask.getLsbD i <;> simp

lemma maskClear_writes : MaskFunc.Writes maskClear true false := by
  intro word mask hset
  have hall : word &&& mask = mask := by
    refine eq_of_getLsbD_eq fun i _ => ?_
    have := hset i
    rw [getLsbD_and]
    cases hms : mask.getLsbD i <;> simp_all
  refine ⟨word &&& ~~~mask, by rw [maskClear, if_pos hall], fun i => ?_⟩
  rw [getLsbD_and, getLsbD_not]
  by_cases hi : i < 32
  · cases mask.getLsbD i <;> simp [hi]
  · simp [getLsbD_of_ge word i (by omega)]

lemma blocksIter_writes {func : MaskFunc} {old new : Bool} (h : func.Writes old new) (left : Nat) :
    ∀ {bitmap : Nat → BitVec 32} {poolIdx idx nr : Nat}, idx < 32 → nr < 2 ^ 31 →
      idx + nr ≤ 32 * left →
      (∀ k, 32 * poolIdx + idx ≤ k → k < 32 * poolIdx + idx + nr → blockBit bitmap k = old) →
      ∃ bitmap', blocksIter func left bitmap poolIdx idx nr = some (true, bitmap') ∧
        ∀ k, blockBit bitmap' k =
          if 32 * poolIdx + idx ≤ k ∧ k < 32 * poolIdx + idx + nr then new
          else blockBit bitmap k := by
  induction left with
  | zero =>
    intro bitmap poolIdx idx nr _ _ hft _
    obtain rfl : nr = 0 := by omega
    refine ⟨bitmap, rfl, fun k => ?_⟩
    rw [if_neg (by omega)]
  | succ left ih =>
    intro bitmap poolIdx idx nr hidx hnr hft hold
    by_cases h0 : nr = 0
    · subst h0
      refine ⟨bitmap, rfl, fun k => ?_⟩
      rw [if_neg (by omega)]
    have hth := thisBlocks_eq hidx hnr
    obtain ⟨word, hwr, hbt⟩ := h (bitmap poolIdx) (iterMask (thisBlocks idx nr) idx) (by
      intro i hms
      rw [getLsbD_iterMask hidx hnr, decide_eq_true_eq] at hms
      have hbit := hold (32 * poolIdx + i) (by omega) (by omega)
      rwa [blockBit, show (32 * poolIdx + i) / 32 = poolIdx by omega,
        show (32 * poolIdx + i) % 32 = i by omega] at hbit)
    have hrs : (nr + 2 ^ 32 - thisBlocks idx nr) % 2 ^ 32 = nr - min nr (32 - idx) := by omega
    -- the rest of the run starts at the first bit of the next word
    obtain ⟨bitmap', hit, hps⟩ := @ih (update bitmap poolIdx word) (poolIdx + 1) 0
      (nr - min nr (32 - idx)) (by omega) (by omega) (by omega) (by
        intro k hle hlt
        rw [blockBit_update, if_neg (by omega)]
        exact hold k (by omega) (by omega))
    refine ⟨bitmap', ?_, fun k => ?_⟩
    · rw [blocksIter, if_neg h0, hwr]
      simp only [hrs, hit]
    · rw [hps, blockBit_update, hbt, getLsbD_iterMask hidx hnr]
      by_cases hk : k / 32 = poolIdx
      · rw [if_neg (by omega), if_pos hk]
        simp only [decide_eq_true_eq, blockBit, hk]
        exact if_congr (by omega) rfl rfl
      · rw [if_neg hk]
        exact if_congr (by omega) rfl rfl

lemma blocksIter_cmp (left : Nat) :
    ∀ {poolIdx idx nr : Nat}, idx < 32 → nr < 2 ^ 31 →
      ∃ free, blocksIter maskCmp left bitmap poolIdx idx nr = some (free, bitmap) ∧
        (free = true → 0 < nr → idx + nr ≤ 32 * left ∧
          ∀ k, 32 * poolIdx + idx ≤ k → k < 32 * poolIdx + idx + nr → blockBit bitmap k = false) := by
  induction left with
  | zero =>
    intro poolIdx idx nr _ _
    refine ⟨_, rfl, fun hfr hpos => ?_⟩
    exact absurd (of_decide_eq_true hfr) (by omega)
  | succ left ih =>
    intro poolIdx idx nr hidx hnr
    by_cases h0 : nr = 0
    · exact ⟨true, by rw [blocksIter, if_pos h0], fun _ hpos => absurd h0 (by omega)⟩
    have hth := thisBlocks_eq hidx hnr
    have hrs : (nr + 2 ^ 32 - thisBlocks idx nr) % 2 ^ 32 = nr - min nr (32 - idx) := by omega
    by_cases hwr : bitmap poolIdx &&& iterMask (thisBlocks idx nr) idx = 0
    · obtain ⟨free, hit, hfr⟩ := @ih (poolIdx + 1) 0 (nr - min nr (32 - idx)) (by omega) (by omega)
      refine ⟨free, ?_, fun htr _ => ?_⟩
      · rw [blocksIter, if_neg h0]
        simp only [maskCmp, hwr, decide_true, update_eq_self, hrs]
        exact hit
      · rw [hth, iterMask_eq hidx (by omega)] at hwr
        have hhr := (and_mask_eq_zero_iff (by omega)).1 hwr
        have hbhn := hfr htr
        refine ⟨by omega, fun k hle hlt => ?_⟩
        by_cases hk : k < 32 * (poolIdx + 1)
        · rw [blockBit, show k / 32 = poolIdx by omega]
          exact hhr (k % 32) (by omega) (by omega)
        · exact (hbhn (by omega)).2 k (by omega) (by omega)
    · refine ⟨false, ?_, fun h => absurd h (by decide)⟩
      rw [blocksIter, if_neg h0]
      simp only [maskCmp, hwr, decide_false]

/-- What `ffz` gives for a word without a zero: 63 from the binary search of `lib/ffz.h`; 0, the
    complement of the word, from the `bsf` of `arch-x86_64.h`. -/
structure Ffz where
  full : Nat
  full_lt : full < 2 ^ 31
  full_mod : full % 32 = 0 ∨ full % 32 = 31

def Ffz.generic : Ffz := ⟨63, by omega, by decide⟩

def Ffz.bsf : Ffz := ⟨0, by omega, by decide⟩

variable (z : Ffz)

def Ffz.ffz (word : BitVec 64) : Nat :=
  ((List.range 64).find? fun i => !word.getLsbD i).getD z.full

/-- `find_next_zero`; the word is an `int`, so the shift copies its last bit. -/
def Ffz.findNextZero (word : BitVec 32) (start : Nat) : Option Nat :=
  if word = BitVec.allOnes 32 then none
  else some (z.ffz ((word.sshiftRight start).signExtend 64) + start)

lemma getLsbD_shifted (word : BitVec 32) (start : Nat) (h : i < 64) :
    ((word.sshiftRight start).signExtend 64).getLsbD i = word.getLsbD (min (start + i) 31) := by
  rw [getLsbD_signExtend, msb_sshiftRight, getLsbD_sshiftRight, msb_eq_getLsbD_last]
  by_cases hwr : i < 32
  · by_cases hin : start + i < 32
    · simp [h, hwr, hin, show min (start + i) 31 = start + i by omega]
    · simp [h, hwr, hin, show min (start + i) 31 = 31 by omega]
  · simp [h, hwr, show min (start + i) 31 = 31 by omega]

lemma Ffz.findNextZero_spec {word : BitVec 32} (hst : start < 32) (h : word ≠ BitVec.allOnes 32) :
    (∃ idx, z.findNextZero word start = some idx ∧ start ≤ idx ∧ idx < 32 ∧
      word.getLsbD idx = false) ∨
    (z.findNextZero word start = some (z.full + start) ∧
      ∀ i, start ≤ i → i < 32 → word.getLsbD i = true) := by
  rw [Ffz.findNextZero, Ffz.ffz, if_neg h]
  cases hfn : (List.range 64).find? fun i =>
      !((word.sshiftRight start).signExtend 64).getLsbD i with
  | none =>
    refine .inr ⟨rfl, fun i hle hlt => ?_⟩
    have hbit := List.find?_eq_none.1 hfn (i - start) (List.mem_range.2 (by omega))
    rw [getLsbD_shifted word start (by omega), show min (start + (i - start)) 31 = i by omega] at hbit
    simpa using hbit
  | some i =>
    obtain ⟨h0, hmem, hpre⟩ := List.find?_range_eq_some.1 hfn
    rw [List.mem_range] at hmem
    rw [getLsbD_shifted word start hmem] at h0
    by_cases hin : start + i < 32
    · rw [show min (start + i) 31 = start + i by omega] at h0
      refine .inl ⟨_, rfl, Nat.le_add_left .., ?_, ?_⟩
      · simp only [getD_some]
        omega
      · simpa [add_comm] using h0
    · -- the copies of the last bit come behind the last bit itself
      have hla := hpre (31 - start) (by omega)
      rw [getLsbD_shifted word start (by omega), show min (start + (31 - start)) 31 = 31 by omega]
        at hla
      rw [show min (start + i) 31 = 31 by omega] at h0
      simp_all

/-- **A position behind the word.** If the bits from `start` on are set, the run at the position that
    `find_next_zero` gives is not free. -/
lemma Ffz.blocksIter_behind {bitmap : Nat → BitVec 32} {left poolIdx : Nat} (hst : 2 ≤ start)
    (hlt : start < 32) (hpos : 0 < nr) (hnr : nr < 2 ^ 30)
    (h : ∀ i, start ≤ i → i < 32 → (bitmap poolIdx).getLsbD i) :
    blocksIter maskCmp left bitmap poolIdx (z.full + start) nr = some (false, bitmap) := by
  have hmod := z.full_mod
  have hfl := z.full_lt
  by_cases hin : z.full + start < 32
  · obtain ⟨free, hit, hfr⟩ :=
      @blocksIter_cmp bitmap left poolIdx (z.full + start) nr hin (by omega)
    cases free with
    | false => exact hit
    | true =>
      have hbit := (hfr rfl hpos).2 (32 * poolIdx + (z.full + start)) (by omega) (by omega)
      rw [blockBit, show (32 * poolIdx + (z.full + start)) / 32 = poolIdx by omega,
        show (32 * poolIdx + (z.full + start)) % 32 = z.full + start by omega,
        h _ (by omega) hin] at hbit
      cases hbit
  · cases left with
    | zero => rw [blocksIter, decide_eq_false (by omega)]
    | succ left =>
      have hth : thisBlocks (z.full + start) nr = 2 ^ 32 + 32 - (z.full + start) := by
        rw [thisBlocks, if_pos (by omega)]
        omega
      have hms : iterMask (thisBlocks (z.full + start) nr) (z.full + start) =
          mask 32 ((z.full + start) % 32) (32 - (z.full + start) % 32) := by
        rw [iterMask, mask, hth, if_neg (by omega), if_neg (by omega),
          show (2 ^ 32 + 32 - (z.full + start)) % 32 = 32 - (z.full + start) % 32 by omega]
      have hwr : ¬bitmap poolIdx &&&
          iterMask (thisBlocks (z.full + start) nr) (z.full + start) = 0 := by
        rw [hms, and_mask_eq_zero_iff (by omega)]
        intro hcl
        have hla := hcl 31 (by omega) (by omega)
        rw [h 31 (by omega) (by decide)] at hla
        cases hla
      rw [blocksIter, if_neg (by omega)]
      simp only [maskCmp, hwr, decide_false]

namespace SmallocPool

variable (pool : SmallocPool)

def blocksFree (i idx nr : Nat) : Option Bool :=
  (blocksIter maskCmp (pool.nrBlocks - i) pool.bitmap i idx nr).map Prod.fst

/-- The loop of `__smalloc_pool`: the position of a free run and `next_non_full`; nothing if an
    assertion fails or the rounds run out. -/
def searchBlocks (z : Ffz) (pool : SmallocPool) (nr : Nat) :
    Nat → Nat → Nat → Nat → Option (Option (Nat × Nat) × Nat)
  | 0, _, _, _ => none
  | rounds + 1, i, lastIdx, nextNonFull =>
    if i < pool.nrBlocks then
      if pool.bitmap i = BitVec.allOnes 32 then searchBlocks z pool nr rounds (i + 1) 0 (i + 1)
      else
        match z.findNextZero (pool.bitmap i) lastIdx with
        | none => none
        | some idx =>
          match pool.blocksFree i idx nr with
          | none => none
          | some true => some (some (i, idx), nextNonFull)
          | some false =>
            if idx + nr < 32 then searchBlocks z pool nr rounds i (idx + nr) nextNonFull
            -- the inner loop goes to the word of the bit but the search restarts at its first
            else searchBlocks z pool nr rounds (i + (idx + nr) / 32) 0 nextNonFull
    else some (none, nextNonFull)

def Run (start nr : Nat) (b : Bool) : Prop :=
  start + nr ≤ 32 * pool.nrBlocks ∧
    ∀ k, start ≤ k → k < start + nr → blockBit pool.bitmap k = b

lemma blocksFree_spec (hi : i < pool.nrBlocks) (h : idx < 32) (hpos : 0 < nr) (hnr : nr < 2 ^ 30)
    (h0 : (pool.bitmap i).getLsbD idx = false) :
    (pool.blocksFree i idx nr = some true ∧ pool.Run (32 * i + idx) nr false) ∨
    (pool.blocksFree i idx nr = some false ∧ 2 ≤ nr) := by
  obtain ⟨free, hit, hfr⟩ := @blocksIter_cmp pool.bitmap (pool.nrBlocks - i) i idx nr h (by omega)
  have hans : pool.blocksFree i idx nr = some free := by rw [blocksFree, hit, map_some]
  cases free with
  | true =>
    obtain ⟨hft, hcl⟩ := hfr rfl hpos
    exact .inl ⟨hans, by omega, hcl⟩
  | false =>
    refine .inr ⟨hans, ?_⟩
    by_contra hone
    -- a single block is free where the zero is
    obtain ⟨_, hps, -⟩ := @blocksIter_writes _ _ _ maskCmp_writes (pool.nrBlocks - i) pool.bitmap i
      idx nr h (by omega) (by omega) (by
        intro k hle hlt
        rwa [blockBit, show k / 32 = i by omega, show k % 32 = idx by omega])
    rw [hit] at hps
    simp at hps

variable (z : Ffz)

lemma searchBlocks_spec (pool : SmallocPool) {nr : Nat} (hpos : 0 < nr) (hnr : nr < 2 ^ 30)
    (rounds : Nat) : ∀ {i lastIdx nextNonFull : Nat}, lastIdx < 32 → (lastIdx = 0 ∨ 2 ≤ lastIdx) →
      (0 < lastIdx → i < pool.nrBlocks) → 32 * (pool.nrBlocks - i) < rounds + lastIdx →
      ∃ found next, searchBlocks z pool nr rounds i lastIdx nextNonFull = some (found, next) ∧
        ∀ i idx, found = some (i, idx) → idx < 32 ∧ pool.Run (32 * i + idx) nr false := by
  induction rounds with
  | zero =>
    intro i lastIdx nextNonFull hla _ hin hrnd
    omega
  | succ rounds ih =>
    intro i lastIdx nextNonFull hla htwo hin hrnd
    unfold searchBlocks
    by_cases hi : i < pool.nrBlocks
    · rw [if_pos hi]
      by_cases hall : pool.bitmap i = BitVec.allOnes 32
      · rw [if_pos hall]
        exact ih (by omega) (by omega) (by omega) (by omega)
      rw [if_neg hall]
      obtain ⟨idx, hfin, hle, hlt, h0⟩ | ⟨hfin, hset⟩ := z.findNextZero_spec hla hall
      · rw [hfin]
        obtain ⟨hfr, hr⟩ | ⟨hbs, hmn⟩ := pool.blocksFree_spec hi hlt hpos hnr h0
        · simp only [hfr]
          refine ⟨_, _, rfl, fun i' idx' hfn => ?_⟩
          obtain ⟨rfl, rfl⟩ := Prod.mk.inj (some.inj hfn)
          exact ⟨hlt, hr⟩
        · simp only [hbs]
          by_cases hwr : idx + nr < 32
          · rw [if_pos hwr]
            exact ih hwr (by omega) (by omega) (by omega)
          · rw [if_neg hwr]
            exact ih (by omega) (by omega) (by omega) (by omega)
      · rw [hfin]
        have hst : 2 ≤ lastIdx := by
          refine htwo.resolve_left fun h0 => hall ?_
          subst h0
          exact eq_of_getLsbD_eq fun j hj => by
            rw [hset j (zero_le j) hj, getLsbD_allOnes, decide_eq_true hj]
        have hbs : pool.blocksFree i (z.full + lastIdx) nr = some false := by
          rw [blocksFree, z.blocksIter_behind hst hla hpos hnr hset, map_some]
        simp only [hbs]
        by_cases hwr : z.full + lastIdx + nr < 32
        · rw [if_pos hwr]
          exact ih hwr (by omega) (by omega) (by omega)
        · rw [if_neg hwr]
          exact ih (by omega) (by omega) (by omega) (by omega)
    · rw [if_neg hi]
      exact ⟨none, nextNonFull, rfl, by simp⟩

def clearBlocks : Nat :=
  ((Finset.range (32 * pool.nrBlocks)).filter fun k => blockBit pool.bitmap k = false).card

/-- A run of blocks with the bit `!b` has the bit `b` in the second pool, which is else the same. -/
structure Changes (pool pool' : SmallocPool) (start nr : Nat) (b : Bool) : Prop where
  map : pool'.map = pool.map
  nrBlocks : pool'.nrBlocks = pool.nrBlocks
  run : pool.Run start nr (!b)
  bits : ∀ k, blockBit pool'.bitmap k =
    if start ≤ k ∧ k < start + nr then b else blockBit pool.bitmap k

variable {pool pool' : SmallocPool}

lemma Changes.clearBlocks_set
    (h : pool.Changes pool' start nr true) : pool'.clearBlocks + nr = pool.clearBlocks := by
  obtain ⟨hft, hr⟩ := h.run
  have hset : (Finset.range (32 * pool'.nrBlocks)).filter (fun k => blockBit pool'.bitmap k = false) =
      ((Finset.range (32 * pool.nrBlocks)).filter fun k => blockBit pool.bitmap k = false) \
        Finset.Ico start (start + nr) := by
    ext k
    rw [mem_sdiff, mem_filter, mem_filter, mem_Ico, h.bits, h.nrBlocks]
    by_cases hk : start ≤ k ∧ k < start + nr <;> simp [hk]
  have hsub : Finset.Ico start (start + nr) ⊆
      (Finset.range (32 * pool.nrBlocks)).filter fun k => blockBit pool.bitmap k = false := by
    intro k hk
    rw [mem_Ico] at hk
    exact mem_filter.2 ⟨mem_range.2 (by omega), hr k hk.1 hk.2⟩
  have hle := card_le_card hsub
  rw [card_Ico] at hle
  unfold clearBlocks
  rw [hset, card_sdiff_of_subset hsub, card_Ico]
  omega

lemma Changes.clearBlocks_clear
    (h : pool.Changes pool' start nr false) : pool'.clearBlocks = pool.clearBlocks + nr := by
  have hbc : pool'.Changes pool start nr true := by
    refine ⟨h.map.symm, h.nrBlocks.symm, ⟨?_, fun k hle hlt => ?_⟩, fun k => ?_⟩
    · rw [h.nrBlocks]
      exact h.run.1
    · rw [h.bits, if_pos ⟨hle, hlt⟩]
      rfl
    · rw [h.bits]
      by_cases hk : start ≤ k ∧ k < start + nr
      · simpa [hk] using h.run.2 k hk.1 hk.2
      · simp [hk]
  exact hbc.clearBlocks_set.symm

def rawSmallocPool (pool : SmallocPool) (size : Nat) : Option (Option Nat × SmallocPool) :=
  let nr := sizeToBlocks size
  if pool.freeBlocks < nr then some (none, pool)
  else
    match searchBlocks z pool nr (32 * pool.nrBlocks + 1) pool.nextNonFull 0 pool.nextNonFull with
    | none => none
    | some (none, next) => some (none, { pool with nextNonFull := next })
    | some (some (i, idx), next) =>
      match blocksIter maskSet (pool.nrBlocks - i) pool.bitmap i idx nr with
      | none => none
      | some (_, bitmap) =>
        some (some (pool.map + (i * 1024 + idx * 32) % 2 ^ 32), { pool with
            bitmap := bitmap, freeBlocks := pool.freeBlocks - nr, nextNonFull := next })

def SameBlocks (pool pool' : SmallocPool) : Prop :=
  pool' = { pool with nextNonFull := pool'.nextNonFull }

lemma rawSmallocPool_spec (pool : SmallocPool) {size : Nat} (hpos : 0 < size)
    (hsz : size < 2 ^ 32 - 32) (hnrb : pool.nrBlocks * 1024 < 2 ^ 32) :
    (∃ pool', pool.rawSmallocPool z size = some (none, pool') ∧ pool.SameBlocks pool') ∨
    ∃ start pool', pool.rawSmallocPool z size = some (some (pool.map + 32 * start), pool') ∧
      pool.Changes pool' start (sizeToBlocks size) true ∧ sizeToBlocks size ≤ pool.freeBlocks ∧
      pool'.freeBlocks = pool.freeBlocks - sizeToBlocks size := by
  have hnr : 0 < sizeToBlocks size ∧ sizeToBlocks size < 2 ^ 30 := by
    unfold sizeToBlocks
    omega
  unfold rawSmallocPool
  by_cases hfl : pool.freeBlocks < sizeToBlocks size
  · exact .inl ⟨pool, if_pos hfl, rfl⟩
  simp only [if_neg hfl]
  obtain ⟨found, next, hsrc, hfn⟩ := @searchBlocks_spec z pool _ hnr.1 hnr.2
    (32 * pool.nrBlocks + 1) pool.nextNonFull 0 pool.nextNonFull (by omega) (.inl rfl)
    (fun h => absurd h (by omega)) (by omega)
  rw [hsrc]
  cases found with
  | none => exact .inl ⟨_, rfl, rfl⟩
  | some found =>
    obtain ⟨i, idx⟩ := found
    obtain ⟨hidx, hr⟩ := hfn i idx rfl
    obtain ⟨bitmap, hit, hbt⟩ := @blocksIter_writes _ _ _ maskSet_writes (pool.nrBlocks - i)
      pool.bitmap i idx (sizeToBlocks size) hidx (by omega) (by have := hr.1; omega) hr.2
    refine .inr ⟨32 * i + idx, { pool with
      bitmap := bitmap, freeBlocks := pool.freeBlocks - sizeToBlocks size, nextNonFull := next },
      ?_, ⟨rfl, rfl, hr, hbt⟩, by omega, rfl⟩
    have hoff : (i * 1024 + idx * 32) % 2 ^ 32 = 32 * (32 * i + idx) := by
      have := hr.1
      omega
    simp only [hit, hoff]

lemma rawSmallocPool_fresh (map nrBlocks : Nat) {size : Nat} (hpos : 0 < size)
    (h : size < 2 ^ 32 - 32) (hft : size ≤ 1024 * nrBlocks) :
    ∃ ptr pool', rawSmallocPool z ⟨map, fun _ => 0, 32 * nrBlocks, nrBlocks, 0⟩ size =
      some (some ptr, pool') := by
  have hnr : 0 < sizeToBlocks size ∧ sizeToBlocks size ≤ 32 * nrBlocks ∧
      sizeToBlocks size < 2 ^ 30 := by
    unfold sizeToBlocks
    omega
  have hcl : ∀ k, blockBit (fun _ => 0) k = false := fun k => getLsbD_zero
  have hfn : z.findNextZero 0 0 = some 0 := by
    rfl
  obtain ⟨bitmap, hfr, -⟩ := @blocksIter_writes _ _ _ maskCmp_writes nrBlocks (fun _ => 0) 0 0
    (sizeToBlocks size) (by decide) (by omega) (by omega) (fun k _ _ => hcl k)
  obtain ⟨bitmap', hset, -⟩ := @blocksIter_writes _ _ _ maskSet_writes nrBlocks (fun _ => 0) 0 0
    (sizeToBlocks size) (by decide) (by omega) (by omega) (fun k _ _ => hcl k)
  have hsrc : searchBlocks z ⟨map, fun _ => 0, 32 * nrBlocks, nrBlocks, 0⟩ (sizeToBlocks size)
      (32 * nrBlocks + 1) 0 0 0 = some (some (0, 0), 0) := by
    simp only [searchBlocks, blocksFree, Nat.sub_zero, hfr, hfn, Option.map_some]
    rw [if_pos (by omega), if_neg (by decide)]
  simp only [rawSmallocPool, if_neg (show ¬32 * nrBlocks < sizeToBlocks size by omega), hsrc,
    Nat.sub_zero, hset]
  exact ⟨_, _, rfl⟩

end SmallocPool

end FioSsd
