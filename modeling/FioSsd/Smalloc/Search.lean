import FioSsd.Smalloc.Heap

/-! # What the searches of `smalloc` miss

`__smalloc_pool` looks for a zero in a word, from the bit on where the last attempt ended, and for a
word from `next_non_full` on, which it moves over every full word it meets; `smalloc` looks for a
pool from `last_pool` on. -/

namespace FioSsd

open BitVec Finset Function Option Prod

variable {rounds : Nat} {s : Smalloc}

namespace SmallocPool

variable {z : Ffz} {pool pool' : SmallocPool} {nr : Nat}

/-- A step of the search: the word, the bit it starts at and the bit that `blocks_free` and, if the run
    is free, `set_blocks` are called with. -/
structure SearchStep where
  (i lastIdx idx : Nat)
deriving DecidableEq

/-- The steps of `searchBlocks`. -/
def searchSteps (z : Ffz) (pool : SmallocPool) (nr : Nat) : Nat → Nat → Nat → List SearchStep
  | 0, _, _ => []
  | rounds + 1, i, lastIdx =>
    if i < pool.nrBlocks then
      if pool.bitmap i = BitVec.allOnes 32 then searchSteps z pool nr rounds (i + 1) 0
      else
        match z.findNextZero (pool.bitmap i) lastIdx with
        | none => []
        | some idx => ⟨i, lastIdx, idx⟩ ::
          if pool.blocksFree i idx nr = some false then
            if idx + nr < 32 then searchSteps z pool nr rounds i (idx + nr)
            else searchSteps z pool nr rounds (i + (idx + nr) / 32) 0
          else []
    else []

def poolSteps (z : Ffz) (pool : SmallocPool) (size : Nat) : List SearchStep :=
  if pool.freeBlocks < sizeToBlocks size then []
  else searchSteps z pool (sizeToBlocks size) (32 * pool.nrBlocks + 1) pool.nextNonFull 0

lemma searchBlocks_mem : ∀ {i lastIdx hint next : Nat} {found : Nat × Nat},
    searchBlocks z pool nr rounds i lastIdx hint = some (some found, next) →
      ∃ step ∈ searchSteps z pool nr rounds i lastIdx, (step.i, step.idx) = found := by
  induction rounds with
  | zero => exact (nomatch ·)
  | succ rounds ih =>
    intro i lastIdx hint next found h
    unfold searchBlocks at h
    unfold searchSteps
    split_ifs at h ⊢ with hi hall
    · exact ih h
    · cases hfn : z.findNextZero (pool.bitmap i) lastIdx with
      | none => simp [hfn] at h
      | some idx =>
        simp only [hfn] at h
        cases hfr : pool.blocksFree i idx nr with
        | none => simp [hfr] at h
        | some free =>
          cases free with
          | true =>
            simp only [hfr, some.injEq, Prod.mk.injEq] at h
            exact ⟨_, .head _, h.1⟩
          | false =>
            simp only [hfr] at h
            simp only [hfr, if_true]
            split_ifs at h ⊢ <;> obtain ⟨step, hmem, hst⟩ := ih h
            all_goals exact ⟨step, .tail _ hmem, hst⟩
    · simp at h

lemma searchSteps_spec : ∀ {i lastIdx : Nat}, lastIdx < 32 →
    ∀ step ∈ searchSteps z pool nr rounds i lastIdx, step.lastIdx < 32 ∧
      pool.bitmap step.i ≠ allOnes 32 ∧
      z.findNextZero (pool.bitmap step.i) step.lastIdx = some step.idx := by
  induction rounds with
  | zero => exact fun _ step hst => absurd hst List.not_mem_nil
  | succ rounds ih =>
    intro i lastIdx hla step hst
    unfold searchSteps at hst
    split_ifs at hst with hi hall
    · exact ih (by decide) step hst
    · cases hfn : z.findNextZero (pool.bitmap i) lastIdx with
      | none => simp [hfn] at hst
      | some idx =>
        simp only [hfn, List.mem_cons] at hst
        obtain rfl | hst := hst
        · exact ⟨hla, hall, hfn⟩
        · split_ifs at hst with hfr hwr
          · exact ih hwr step hst
          · exact ih (by decide) step hst
          · exact absurd hst List.not_mem_nil
    · exact absurd hst List.not_mem_nil

/-- **Every step looks at a clear bit inside its word** if and only if none starts behind the last clear
    bit of the word. -/
theorem poolSteps_inside_iff (z : Ffz) (pool : SmallocPool) (size : Nat) :
    (∀ step ∈ pool.poolSteps z size, step.idx < 32 ∧ (pool.bitmap step.i).getLsbD step.idx = false) ↔
    ∀ step ∈ pool.poolSteps z size,
      ∃ j, step.lastIdx ≤ j ∧ j < 32 ∧ (pool.bitmap step.i).getLsbD j = false := by
  refine forall₂_congr fun step hmem => ?_
  have hsp : step.lastIdx < 32 ∧ pool.bitmap step.i ≠ BitVec.allOnes 32 ∧
      z.findNextZero (pool.bitmap step.i) step.lastIdx = some step.idx := by
    unfold poolSteps at hmem
    split_ifs at hmem
    · exact absurd hmem List.not_mem_nil
    · exact searchSteps_spec (by decide) step hmem
  obtain ⟨hla, hwr, hidx⟩ := hsp
  obtain ⟨idx, hfn, hle, hlt, h0⟩ | ⟨hfn, hset⟩ := z.findNextZero_spec hla hwr
  · cases hidx.symm.trans hfn
    exact iff_of_true ⟨hlt, h0⟩ ⟨_, hle, hlt, h0⟩
  · obtain hidx := Option.some.inj (hidx.symm.trans hfn)
    refine iff_of_false (fun ⟨hlt, h0⟩ => ?_) fun ⟨j, hle, hlt, h0⟩ => ?_
    · exact absurd ((hset _ (by omega) hlt).symm.trans h0) (by decide)
    · exact absurd ((hset j hle hlt).symm.trans h0) (by decide)

def crowdedPool : SmallocPool := ⟨4096, fun i => if i = 0 then 0xFFFFFFFE else 0, 262113, 8192, 0⟩

/-- For two blocks the second step looks at bit 65 of the word, or with `bsf` at a bit that is set. -/
theorem poolSteps_outside : (⟨0, 2, 65⟩ ∈ poolSteps .generic crowdedPool 40 ∧ ¬65 < 32) ∧
    ⟨0, 2, 2⟩ ∈ poolSteps .bsf crowdedPool 40 ∧ (crowdedPool.bitmap 0).getLsbD 2 = true := by
  decide +kernel

def HintSound (pool : SmallocPool) : Prop :=
  ∀ w < pool.nextNonFull, pool.bitmap w = BitVec.allOnes 32

/-- `sfree_pool` under the lock: the run at `offset` is given back. -/
def clearRun (pool : SmallocPool) (offset size : Nat) : Option SmallocPool :=
  let i := offset / 1024
  match blocksIter maskClear (pool.nrBlocks - i) pool.bitmap i (offset % 1024 / 32)
      (sizeToBlocks size) with
  | none => none
  | some (_, bitmap) =>
    some { pool with
      bitmap := bitmap
      nextNonFull := if i < pool.nextNonFull then i else pool.nextNonFull
      freeBlocks := (pool.freeBlocks + sizeToBlocks size) % 2 ^ 32 }

/-- A call for the pool. -/
inductive PoolStep (z : Ffz) : Option Nat → SmallocPool → SmallocPool → Prop
  | smalloc {pool pool' : SmallocPool} {ptr : Option Nat} (size : Nat) (hsize : size ≤ 2 ^ 31)
      (run : pool.rawSmallocPool z (allocSize size) = some (ptr, pool')) :
      PoolStep z (some (sizeToBlocks (allocSize size))) pool pool'
  | sfree {pool pool' : SmallocPool} (start size : Nat) (hsize : size ≤ 2 ^ 31)
      (used : pool.Run start (sizeToBlocks (allocSize size)) true)
      (run : pool.clearRun (32 * start) (allocSize size) = some pool') :
      PoolStep z none pool pool'

/-- In the first word from `next_non_full` on that is not full, the run at the first zero is free. -/
def FitsFirst (z : Ffz) (pool : SmallocPool) (nr : Nat) : Prop :=
  ∀ w idx, pool.nextNonFull ≤ w → w < pool.nrBlocks →
    (∀ v, pool.nextNonFull ≤ v → v < w → pool.bitmap v = BitVec.allOnes 32) →
    pool.bitmap w ≠ BitVec.allOnes 32 → z.findNextZero (pool.bitmap w) 0 = some idx →
      pool.Run (32 * w + idx) nr false

def Runs (z : Ffz) : SmallocPool → SmallocPool → Prop :=
  Relation.ReflTransGen fun pool pool' =>
    ∃ request, (∀ nr, request = some nr → pool.FitsFirst z nr) ∧ PoolStep z request pool pool'

lemma findNextZero_zero (z : Ffz) {word : BitVec 32} (h : word ≠ allOnes 32) :
    ∃ idx, z.findNextZero word 0 = some idx ∧ idx < 32 ∧ word.getLsbD idx = false := by
  obtain ⟨idx, hfn, -, hlt, h0⟩ | ⟨-, hset⟩ := z.findNextZero_spec (show 0 < 32 by decide) h
  · exact ⟨idx, hfn, hlt, h0⟩
  · refine absurd (eq_of_getLsbD_eq fun j hj => ?_) h
    rw [hset j (Nat.zero_le j) hj, getLsbD_allOnes, decide_eq_true hj]

lemma searchBlocks_hint (hpos : 0 < nr) (hnr : nr < 2 ^ 30) (hft : pool.FitsFirst z nr) :
    ∀ {i : Nat} {found : Option (Nat × Nat)} {next : Nat}, pool.nextNonFull ≤ i →
      (∀ v < i, pool.bitmap v = BitVec.allOnes 32) →
      searchBlocks z pool nr rounds i 0 i = some (found, next) →
      ∀ v < next, pool.bitmap v = BitVec.allOnes 32 := by
  induction rounds with
  | zero => exact fun _ _ h => nomatch h
  | succ rounds ih =>
    intro i found next hle hbl h
    unfold searchBlocks at h
    split_ifs at h with hi hall
    · refine ih (Nat.le_succ_of_le hle) (fun v hv => ?_) h
      obtain hv | rfl := Nat.lt_succ_iff_lt_or_eq.1 hv
      · exact hbl v hv
      · exact hall
    · obtain ⟨idx, hfn, hlt, h0⟩ := findNextZero_zero z hall
      simp only [hfn] at h
      have hr := hft i idx hle hi (fun v _ hv => hbl v hv) hall hfn
      obtain ⟨_, hit, -⟩ := @blocksIter_writes _ _ _ maskCmp_writes (pool.nrBlocks - i)
        pool.bitmap i idx nr hlt (by omega) (by have := hr.1; omega) hr.2
      simp only [blocksFree, hit, map_some] at h
      exact (Prod.mk.inj (some.inj h)).2 ▸ hbl
    · exact (Prod.mk.inj (some.inj h)).2 ▸ hbl

lemma searchBlocks_single {w idx : Nat} (hw : w < pool.nrBlocks) (hidx : idx < 32)
    (h0 : (pool.bitmap w).getLsbD idx = false) {rounds : Nat} : ∀ {i hint : Nat}, i ≤ w →
      w - i < rounds → ∃ at' next, searchBlocks z pool 1 rounds i 0 hint = some (some at', next) := by
  induction rounds with
  | zero => exact fun _ h => absurd h (by omega)
  | succ rounds ih =>
    intro i hint hle hrnd
    rw [searchBlocks, if_pos (by omega)]
    by_cases hall : pool.bitmap i = allOnes 32
    · have hne : i ≠ w := by
        rintro rfl
        rw [hall, getLsbD_allOnes, decide_eq_true hidx] at h0
        cases h0
      rw [if_pos hall]
      exact ih (by omega) (by omega)
    · rw [if_neg hall]
      obtain ⟨idx', hfn, hlt, hcl⟩ := findNextZero_zero z hall
      obtain ⟨hfr, -⟩ | ⟨-, hmn⟩ := pool.blocksFree_spec (by omega) hlt
        Nat.one_pos (by decide) hcl
      · simp only [hfn, hfr]
        exact ⟨_, _, rfl⟩
      · omega

structure Sound (pool : SmallocPool) : Prop where
  size : pool.nrBlocks * 1024 < 2 ^ 32
  free : pool.freeBlocks = pool.clearBlocks
  hint : pool.HintSound

lemma eq_allOnes_iff {bitmap : Nat → BitVec 32} {w : Nat} :
    bitmap w = allOnes 32 ↔ ∀ k, k / 32 = w → blockBit bitmap k = true := by
  refine ⟨fun h k hk => ?_, fun h => eq_of_getLsbD_eq fun j hj => ?_⟩
  · rw [blockBit, hk, h, getLsbD_allOnes, decide_eq_true (Nat.mod_lt k (by decide))]
  · have hbit := h (32 * w + j) (by omega)
    rw [blockBit, show (32 * w + j) / 32 = w by omega, show (32 * w + j) % 32 = j by omega] at hbit
    rw [hbit, getLsbD_allOnes, decide_eq_true hj]

lemma Sound.step {request : Option Nat} (h : pool.Sound)
    (hft : ∀ nr, request = some nr → pool.FitsFirst z nr) (hst : PoolStep z request pool pool') :
    pool'.Sound := by
  cases hst with
  | smalloc size hsz run =>
    have hal := allocSize_spec hsz
    have hblk := sizeToBlocks_spec (show allocSize size < 2 ^ 32 - 32 by omega)
    have hhn : ∀ v < pool'.nextNonFull, pool.bitmap v = BitVec.allOnes 32 := by
      unfold rawSmallocPool at run
      simp only at run
      split_ifs at run with hfl
      · exact (Prod.mk.inj (some.inj run)).2 ▸ h.hint
      · split at run
        · exact nomatch run
        · next next hsrc =>
            obtain rfl := (Prod.mk.inj (some.inj run)).2
            exact searchBlocks_hint (by omega) (by omega) (hft _ rfl) le_rfl h.hint hsrc
        · next i idx next hsrc =>
            split at run
            · exact nomatch run
            · obtain rfl := (Prod.mk.inj (some.inj run)).2
              exact searchBlocks_hint (by omega) (by omega) (hft _ rfl) le_rfl h.hint hsrc
    obtain ⟨_, hraw, heq⟩ | ⟨start, _, hraw, hchn, hle, hfr⟩ :=
      pool.rawSmallocPool_spec z (show 0 < allocSize size by omega) (by omega) h.size
    · obtain rfl := (Prod.mk.inj (some.inj (run.symm.trans hraw))).2
      rw [heq] at hhn ⊢
      exact ⟨h.size, h.free, hhn⟩
    · obtain rfl := (Prod.mk.inj (some.inj (run.symm.trans hraw))).2
      refine ⟨hchn.nrBlocks ▸ h.size, ?_, fun w hw => eq_allOnes_iff.2 fun k hk => ?_⟩
      · have := hchn.clearBlocks_set
        have := h.free
        omega
      · rw [hchn.bits]
        split_ifs
        · rfl
        · exact eq_allOnes_iff.1 (hhn w hw) k hk
  | sfree start size hsz used run =>
    have hal := allocSize_spec hsz
    have hblk := sizeToBlocks_spec (show allocSize size < 2 ^ 32 - 32 by omega)
    have hus := used.1
    have hnr := h.size
    obtain ⟨bitmap, hit, hbt⟩ := @blocksIter_writes _ _ _ maskClear_writes
      (pool.nrBlocks - 32 * start / 1024) pool.bitmap (32 * start / 1024) (32 * start % 1024 / 32)
      (sizeToBlocks (allocSize size)) (by omega) (by omega) (by omega)
      (fun k hle hlt => used.2 k (by omega) (by omega))
    simp only [show 32 * (32 * start / 1024) + 32 * start % 1024 / 32 = start by omega] at hbt
    simp only [clearRun, hit] at run
    cases run
    have hchn : ∀ free next, pool.Changes ⟨pool.map, bitmap, free, pool.nrBlocks, next⟩ start
        (sizeToBlocks (allocSize size)) false := fun _ _ => ⟨rfl, rfl, used, hbt⟩
    have hcl := (hchn ((pool.freeBlocks + sizeToBlocks (allocSize size)) % 2 ^ 32)
      (if 32 * start / 1024 < pool.nextNonFull then 32 * start / 1024
        else pool.nextNonFull)).clearBlocks_clear
    have hle : pool.clearBlocks + sizeToBlocks (allocSize size) ≤ 32 * pool.nrBlocks := by
      rw [← hcl]
      exact (card_filter_le _ _).trans (card_range _).le
    refine ⟨h.size, ?_, fun w hw => eq_allOnes_iff.2 fun k hk => ?_⟩
    · rw [hcl, ← h.free]
      exact Nat.mod_eq_of_lt (by rw [h.free]; omega)
    · simp only at hw
      have hw' : w < 32 * start / 1024 ∧ w < pool.nextNonFull := by
        split_ifs at hw <;> omega
      rw [hbt, if_neg (by omega)]
      exact eq_allOnes_iff.1 (h.hint w hw'.2) k hk

lemma Sound.single (h : pool.Sound) {size : Nat} (hsz : sizeToBlocks size = 1) (hpos : 0 < size)
    (hlt : size < 2 ^ 32 - 32) {k : Nat} (hk : k < 32 * pool.nrBlocks)
    (hcl : blockBit pool.bitmap k = false) :
    ∃ ptr pool', pool.rawSmallocPool z size = some (some ptr, pool') := by
  have hfr : 0 < pool.clearBlocks := card_pos.2 ⟨k, mem_filter.2 ⟨mem_range.2 hk, hcl⟩⟩
  have hle : pool.nextNonFull ≤ k / 32 := by
    by_contra hbl
    rw [eq_allOnes_iff.1 (h.hint (k / 32) (by omega)) k rfl] at hcl
    cases hcl
  obtain ⟨at', next, hsrc⟩ := @searchBlocks_single z pool (k / 32) (k % 32) (by omega)
    (Nat.mod_lt k (by decide)) hcl (32 * pool.nrBlocks + 1) pool.nextNonFull pool.nextNonFull hle
    (by omega)
  obtain ⟨pool', hraw, -⟩ | ⟨start, pool', hraw, -⟩ := pool.rawSmallocPool_spec z hpos hlt h.size
  · unfold rawSmallocPool at hraw
    simp only [hsz, if_neg (show ¬pool.freeBlocks < 1 by rw [h.free]; omega), hsrc] at hraw
    split at hraw
    all_goals exact nomatch hraw
  · exact ⟨_, pool', hraw⟩

/-- **The hint is sound** in every run of calls for a pool in which each request fits at the first
zero. -/
theorem hint_sound (z : Ffz) (map : Nat) {size : Nat} (hsize : size ≤ 2 ^ 31) {pool : SmallocPool}
    (hruns : Runs z (addPool map size) pool) :
    pool.HintSound ∧ ∀ request, sizeToBlocks (allocSize request) = 1 → request ≤ 2 ^ 31 →
      (∃ k < 32 * pool.nrBlocks, blockBit pool.bitmap k = false) →
        ∃ ptr pool', pool.rawSmallocPool z (allocSize request) = some (some ptr, pool') := by
  have hbtm := (bitmapBlocks_spec hsize).2
  have hsta : (addPool map size).Sound :=
    ⟨lt_of_le_of_lt hbtm (by decide), (Smalloc.clearBlocks_addPool map size).symm,
      fun w hw => absurd hw (Nat.not_lt_zero w)⟩
  have hsn : pool.Sound := by
    induction hruns with
    | refl => exact hsta
    | tail _ hst ih =>
      obtain ⟨request, hft, hst⟩ := hst
      exact ih.step hft hst
  refine ⟨hsn.hint, fun request hone hle ⟨k, hk, hcl⟩ => ?_⟩
  have hal := allocSize_spec hle
  exact hsn.single hone (by omega) (by omega) hk hcl

lemma fitsFirst_of_word {w nr : Nat} (hlt : w < pool.nrBlocks) (hnr : nr ≤ 32)
    (hfull : ∀ v < w, pool.bitmap v = allOnes 32) (h0 : pool.bitmap w = 0)
    (hle : pool.nextNonFull ≤ w) : pool.FitsFirst .generic nr := by
  intro v idx _ _ hbefore hne hidx
  obtain hvw | rfl | hwv := Nat.lt_trichotomy v w
  · exact absurd (hfull v hvw) hne
  · rw [h0] at hidx
    obtain rfl : 0 = idx := some.inj hidx
    refine ⟨by omega, fun k _ _ => ?_⟩
    rw [blockBit, show k / 32 = v by omega, h0]
    exact getLsbD_zero
  · exact absurd ((hbefore w hle hwv).symm.trans h0) (by decide)

/-- The first request fills the first word, the second one moves the hint behind it. -/
theorem hint_sound_second : ∃ pool, Runs .generic (addPool 4096 100) pool ∧
    pool.nextNonFull = 1 ∧ pool.HintSound ∧
      ∃ ptr pool', pool.rawSmallocPool .generic (allocSize 8) = some (some ptr, pool') := by
  obtain ⟨⟨_, pool⟩, hraw, htest⟩ := (Option.any_eq_true
    (fun res : Option Nat × SmallocPool => res.2.nextNonFull = 0 ∧ res.2.nrBlocks = 8192 ∧
      res.2.bitmap 0 = allOnes 32 ∧ res.2.bitmap 1 = 0 ∧
      (res.2.rawSmallocPool .generic (allocSize 40)).any fun res : Option Nat × SmallocPool =>
        res.2.nextNonFull = 1 ∧ res.2.nrBlocks = 8192 ∧ blockBit res.2.bitmap 34 = false) _).1
    (show ((addPool 4096 100).rawSmallocPool .generic (allocSize 1010)).any _ = true by
      decide +kernel)
  obtain ⟨hnext, hnr, hfull, hfree, hsecond⟩ := of_decide_eq_true htest
  obtain ⟨⟨_, pool'⟩, hraw', htest'⟩ := (Option.any_eq_true _ _).1 hsecond
  obtain ⟨hnext', hnr', hclear⟩ := of_decide_eq_true htest'
  change pool'.nrBlocks = 8192 at hnr'
  have hfits : (addPool 4096 100).FitsFirst .generic 32 :=
    fitsFirst_of_word (w := 0) (by decide) (by decide) (by simp) rfl le_rfl
  have hfits' : pool.FitsFirst .generic 2 :=
    fitsFirst_of_word (w := 1) (lt_of_lt_of_eq (by decide) hnr.symm) (by decide)
      (fun v hv => Nat.lt_one_iff.1 hv ▸ hfull) hfree (le_of_eq_of_le hnext (by decide))
  have hruns : Runs .generic (addPool 4096 100) pool' :=
    .head ⟨_, fun _ h => some.inj h ▸ hfits, .smalloc 1010 (by decide) hraw⟩
      (.single ⟨_, fun _ h => some.inj h ▸ hfits', .smalloc 40 (by decide) hraw'⟩)
  obtain ⟨hsound, hsingle⟩ := hint_sound .generic 4096 (by decide) hruns
  exact ⟨pool', hruns, hnext', hsound, hsingle 8 (by decide) (by decide) ⟨34, by omega, hclear⟩⟩

def jumpingRun : Option SmallocPool := do
  let (_, pool) ← (addPool 4096 100).rawSmallocPool .generic (allocSize 620)
  let (_, pool) ← pool.rawSmallocPool .generic (allocSize 1390)
  let pool ← pool.clearRun 0 (allocSize 620)
  let (_, pool) ← pool.rawSmallocPool .generic (allocSize 1010)
  return pool

/-- The last search jumps from the first word to the second one, which is full, and the hint is then the
    third one: the first word is below it and has 20 free blocks. -/
theorem hint_unsound : ∃ pool, jumpingRun = some pool ∧ pool.nextNonFull = 2 ∧
    pool.bitmap 0 = 0xFFF00000 ∧ ¬pool.HintSound := by
  obtain ⟨pool, hr, hts⟩ := (Option.any_eq_true
    (fun pool : SmallocPool => pool.nextNonFull = 2 ∧ pool.bitmap 0 = 0xFFF00000) jumpingRun).1
    (by decide +kernel)
  obtain ⟨hnx, hwr⟩ := of_decide_eq_true hts
  refine ⟨pool, hr, hnx, hwr, fun h => ?_⟩
  exact absurd (hwr.symm.trans (h 0 (by omega))) (by decide)

end SmallocPool

namespace Smalloc

variable {z : Ffz} {mmap : Nat → Option Nat} {size : Nat}

lemma sfreePool_clearRun {s' : Smalloc} {j ptr : Nat} (h : s.sfreePool j ptr = some s') :
    (s.mp j).clearRun (ptr - 8 - (s.mp j).map) (loadInt s.mem (ptr - 8)) = some (s'.mp j) := by
  unfold sfreePool at h
  unfold SmallocPool.clearRun
  simp only at h ⊢
  split at h
  · cases h
  split at h
  · cases h
  split at h
  · cases h
  split at h
  · cases h
  · cases h
    simp [*]

def Fails (z : Ffz) (size : Nat) (s : Smalloc) (j : Nat) : Prop :=
  ∃ s', s.smallocPool z j size = some (none, s')

lemma fails_iff {j : Nat} :
    s.Fails z size j ↔ ∃ pool, (s.mp j).rawSmallocPool z (allocSize size) = some (none, pool) := by
  unfold Fails smallocPool
  split <;> next heq => simp [heq]

lemma smallocPools_cases {left : Nat} : ∀ {i : Nat} {s s' : Smalloc} {ptr : Option Nat},
    smallocPools z size left i s = some (ptr, s') → s'.nrPools = s.nrPools ∧
      ((ptr ≠ none ∧ ∃ j, i ≤ j ∧ j < i + left ∧ ¬s.Fails z size j) ∨
        (ptr = none ∧ s'.lastPool = s.lastPool ∧ ∀ j, i ≤ j → j < i + left → s.Fails z size j)) := by
  induction left with
  | zero =>
    intro i s s' ptr h
    cases h
    exact ⟨rfl, .inr ⟨rfl, rfl, fun j hle hlt => absurd hlt (by omega)⟩⟩
  | succ left ih =>
    intro i s s' ptr h
    unfold smallocPools at h
    split at h
    · exact nomatch h
    · next p s1 hpl =>
        cases h
        refine ⟨?_, .inl ⟨by simp, i, le_refl i, by omega, fun ⟨_, hfl⟩ => ?_⟩⟩
        · unfold smallocPool at hpl
          split at hpl <;> cases hpl
          rfl
        · rw [hpl] at hfl
          exact nomatch hfl
    · next s1 hpl =>
        have hoth : s1.nrPools = s.nrPools ∧ s1.lastPool = s.lastPool ∧
            ∀ j, i < j → s1.mp j = s.mp j := by
          unfold smallocPool at hpl
          split at hpl <;> cases hpl
          exact ⟨rfl, rfl, fun j hj => update_of_ne (by omega) _ _⟩
        obtain ⟨hnr, hla, hmp⟩ := hoth
        have heq : ∀ j, i < j → (s1.Fails z size j ↔ s.Fails z size j) := fun j hj => by
          rw [fails_iff, fails_iff, hmp j hj]
        obtain ⟨hnr1, ⟨hso, j, hle, hlt, hj⟩ | ⟨hno, hla1, hall⟩⟩ := ih h
        · exact ⟨hnr1.trans hnr, .inl ⟨hso, j, by omega, by omega, fun hf => hj ((heq j hle).2 hf)⟩⟩
        · refine ⟨hnr1.trans hnr, .inr ⟨hno, hla1.trans hla, fun j hle hlt => ?_⟩⟩
          obtain rfl | hj := Nat.eq_or_lt_of_le hle
          · exact ⟨s1, hpl⟩
          · exact (heq j hj).1 (hall j hj (by omega))

lemma smallocRounds_mono : ∀ {i : Nat} {s s' : Smalloc} {ptr : Option Nat},
    smallocRounds z mmap size rounds i s = some (ptr, s') → s.nrPools ≤ s'.nrPools := by
  induction rounds with
  | zero => exact (nomatch ·)
  | succ rounds ih =>
    intro i s s' ptr h
    unfold smallocRounds at h
    split at h
    · exact nomatch h
    · next hpl =>
        cases h
        exact (smallocPools_cases hpl).1.ge
    · next s1 hpl =>
        have hnr := (smallocPools_cases hpl).1
        split_ifs at h
        · have hle := ih h
          exact hnr.ge.trans hle
        · cases h
          exact hnr.ge
        · split at h
          · cases h
            exact hnr.ge
          · exact (hnr.ge.trans (Nat.le_succ _)).trans (ih h)

lemma smallocRounds_grows {rounds i : Nat} {s s1 s' : Smalloc} {ptr : Option Nat}
    (hpl : smallocPools z size (s.nrPools - i) i s = some (none, s1)) (hla : s.lastPool = 0)
    (h : smallocRounds z mmap size (rounds + 1) i s = some (ptr, s')) :
    ptr = none ∨ s.nrPools < s'.nrPools := by
  obtain ⟨hnr, ⟨hso, -⟩ | ⟨-, hla1, -⟩⟩ := smallocPools_cases hpl
  · exact absurd rfl hso
  rw [smallocRounds, hpl] at h
  simp only [hla1, hla, ne_eq, not_true_eq_false, if_false] at h
  split_ifs at h
  · exact .inl (Prod.mk.inj (some.inj h)).1.symm
  · split at h
    · exact .inl (Prod.mk.inj (some.inj h)).1.symm
    · exact .inr (lt_of_lt_of_le (hnr ▸ Nat.lt_succ_self s1.nrPools) (smallocRounds_mono h))

/-- **A pool is added or there is no memory only if every pool fails**, if and only if a pool from
    `last_pool` on does not fail or all the pools before it do. -/
theorem smalloc_triesAll_iff (z : Ffz) (mmap : Nat → Option Nat) (size : Nat) {s s' : Smalloc}
    {ptr : Option Nat} (hrun : smalloc z mmap size s = some (ptr, s')) :
    (ptr = none ∨ s.nrPools < s'.nrPools → ∀ j < s.nrPools, s.Fails z size j) ↔
      (∃ j, s.lastPool ≤ j ∧ j < s.nrPools ∧ ¬s.Fails z size j) ∨
        ∀ j < s.lastPool, j < s.nrPools → s.Fails z size j := by
  cases hpl : smallocPools z size (s.nrPools - s.lastPool) s.lastPool s with
  | none => simp [smalloc, smallocRounds, hpl] at hrun
  | some res =>
    obtain ⟨found, s1⟩ := res
    obtain ⟨hnr, ⟨hso, j, hle, hlt, hj⟩ | ⟨rfl, hla, hall⟩⟩ := smallocPools_cases hpl
    · obtain ⟨p, rfl⟩ := Option.ne_none_iff_exists'.1 hso
      simp only [smalloc, smallocRounds, hpl] at hrun
      cases hrun
      refine iff_of_true (fun h => ?_) (.inl ⟨j, hle, by omega, hj⟩)
      simp [hnr] at h
    · have hgr : ptr = none ∨ s.nrPools < s'.nrPools := by
        by_cases h0 : s.lastPool = 0
        · exact smallocRounds_grows hpl h0 hrun
        · rw [smalloc, smallocRounds, hpl] at hrun
          simp only [hla, ne_eq, h0, not_false_eq_true, if_true] at hrun
          have hno : (s1.nrPools - max s.lastPool s1.nrPools) = 0 := by omega
          have hemp := @smallocRounds_grows z mmap size 1 (max s.lastPool s1.nrPools)
            { s1 with lastPool := 0 } { s1 with lastPool := 0 } s' ptr (by simp only [hno]; rfl) rfl
            hrun
          exact hnr ▸ hemp
      have hfr : ¬∃ j, s.lastPool ≤ j ∧ j < s.nrPools ∧ ¬s.Fails z size j := by
        rintro ⟨j, hle, hlt, hj⟩
        exact hj (hall j hle (by omega))
      rw [or_iff_right hfr]
      refine ⟨fun h j _ hlt => h hgr j hlt, fun h _ j hlt => ?_⟩
      by_cases hj : j < s.lastPool
      · exact h j hj hlt
      · exact hall j (by omega) (by omega)

lemma smallocPools_passes {i left : Nat} (h : (s.mp i).freeBlocks < sizeToBlocks (allocSize size)) :
    smallocPools z size (left + 1) i s = smallocPools z size left (i + 1) s := by
  have hraw : (s.mp i).rawSmallocPool z (allocSize size) = some (none, s.mp i) := if_pos h
  conv_lhs => unfold smallocPools smallocPool
  simp [hraw, update_eq_self]

lemma smallocRounds_adds {rounds i map : Nat} {s s1 : Smalloc} (h : size ≤ 2 ^ 31)
    (hpl : smallocPools z size (s.nrPools - i) i s = some (none, s1)) (hla : s1.lastPool = 0)
    (hrm : s1.nrPools < 128) (hmp : mmap s1.nrPools = some map) :
    ∃ ptr s', smallocRounds z mmap size (rounds + 2) i s = some (some ptr, s') ∧
      s'.nrPools = s1.nrPools + 1 ∧ s'.lastPool = s1.nrPools ∧
      (∀ j < s1.nrPools, s'.mp j = s1.mp j) ∧
      (s'.mp s1.nrPools).freeBlocks = 32 * bitmapBlocks size - sizeToBlocks (allocSize size) := by
  have hal := allocSize_spec h
  have hblk := bitmapBlocks_spec h
  obtain ⟨hdr, pool, hraw⟩ := SmallocPool.rawSmallocPool_fresh z map (bitmapBlocks size)
    (by omega) (by omega) hblk.1
  have hfr : pool.freeBlocks = 32 * bitmapBlocks size - sizeToBlocks (allocSize size) := by
    obtain ⟨_, hsp, -⟩ | ⟨start, _, hsp, -, -, hfr⟩ := SmallocPool.rawSmallocPool_spec z
      ⟨map, fun _ => 0, 32 * bitmapBlocks size, bitmapBlocks size, 0⟩ (show 0 < allocSize size by omega)
      (by omega) (show bitmapBlocks size * 1024 < 2 ^ 32 by omega)
    · exact nomatch hraw.symm.trans hsp
    · rw [(Prod.mk.inj (some.inj (hraw.symm.trans hsp))).2]
      exact hfr
  rw [smallocRounds, hpl]
  simp only [hla, ne_eq, not_true_eq_false, if_false, if_neg (show ¬128 < s1.nrPools + 1 by omega),
    hmp]
  simp only [smallocRounds, Nat.add_sub_cancel_left]
  simp only [smallocPools, smallocPool, update_self, addPool, hraw]
  refine ⟨_, _, rfl, rfl, rfl, fun j hj => ?_, ?_⟩
  · simp only [update_of_ne (ne_of_lt hj)]
  · simpa only [update_self] using hfr

lemma sinit_adds : ∃ ptr s,
    smalloc .generic (fun _ => some (2 ^ 24)) (9 * 2 ^ 20) (Heap.sinit 4096).alloc =
      some (some ptr, s) ∧ s.nrPools = 2 ∧ s.lastPool = 1 ∧
    (∀ j < 1, s.mp j = (Heap.sinit 4096).alloc.mp j) ∧
    (s.mp 1).freeBlocks = 32 * bitmapBlocks (9 * 2 ^ 20) - sizeToBlocks (allocSize (9 * 2 ^ 20)) :=
  @smallocRounds_adds .generic (fun _ => some (2 ^ 24)) (9 * 2 ^ 20) 1 0 (2 ^ 24)
    (Heap.sinit 4096).alloc _ (by decide) (smallocPools_passes (by decide)) rfl (by decide) rfl

theorem smalloc_triesAll_iff_adds : ∃ ptr s',
    smalloc .generic (fun _ => some (2 ^ 24)) (9 * 2 ^ 20) (Heap.sinit 4096).alloc =
      some (some ptr, s') ∧ s'.nrPools = 2 ∧
      ∀ j < 1, (Heap.sinit 4096).alloc.Fails .generic (9 * 2 ^ 20) j := by
  obtain ⟨ptr, s', hrun, hnr, -⟩ := sinit_adds
  refine ⟨ptr, s', hrun, hnr, (smalloc_triesAll_iff .generic _ _ hrun).2 (.inr ?_) (.inr ?_)⟩
  · exact fun j hj => absurd hj (Nat.not_lt_zero j)
  · rw [hnr]
    decide

/-- The second pool is made for 9 MiB and has 31 blocks left. -/
theorem smalloc_skips_first_pool : ∃ ptr s ptr' s',
    smalloc .generic (fun _ => some (2 ^ 24)) (9 * 2 ^ 20) (Heap.sinit 4096).alloc =
      some (some ptr, s) ∧
    smalloc .generic (fun _ => some (2 ^ 25)) 2000 s = some (some ptr', s') ∧
    s'.nrPools = s.nrPools + 1 ∧ ¬s.Fails .generic 2000 0 := by
  obtain ⟨ptr, s, hr, hnr, hla, hmp, hfr⟩ := sinit_adds
  have hscn : smallocPools .generic 2000 1 1 s = some (none, s) := by
    refine smallocPools_passes ?_
    rw [hfr]
    decide
  obtain ⟨ptr', s', hrn', hnr', -⟩ := @smallocRounds_adds .generic (fun _ => some (2 ^ 25)) 2000 0 2
    (2 ^ 25) { s with lastPool := 0 } { s with lastPool := 0 } (by decide)
    (by simp only [hnr]; rfl) rfl (by simp only [hnr]; decide) rfl
  refine ⟨ptr, s, ptr', s', hr, ?_, hnr', fun hfl => ?_⟩
  · rw [smalloc, smallocRounds, hla, hnr, hscn]
    simp only [hla, hnr, ne_eq, one_ne_zero, not_false_eq_true, if_true]
    simp only [hnr] at hrn'
    exact hrn'
  · obtain ⟨_, hno⟩ := fails_iff.1 hfl
    obtain ⟨_, _, hfre⟩ := SmallocPool.rawSmallocPool_fresh .generic 4096
      (bitmapBlocks (8192 * 1024)) (show 0 < allocSize 2000 by decide) (by decide) (by decide)
    rw [hmp 0 (by decide)] at hno
    cases hfre.symm.trans hno

end Smalloc

end FioSsd
