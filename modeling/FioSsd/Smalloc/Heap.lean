import FioSsd.Lib.Memory
import FioSsd.Smalloc.Pool
import Mathlib.Data.List.Perm.Basic

/-! # The allocator of shared memory

`smalloc` goes through the pools for a run of free blocks and adds a pool if there is none. The run
starts with a header of its length and a redzone word, and ends with another redzone word. -/

namespace FioSsd

open Function List SmallocPool

variable {mem' : Mem} {addr map : Nat}
variable (mem : Mem)

def loadInt (addr : Nat) : Nat := leNat (mem.load addr 4)

def storeInt (addr value : Nat) : Mem := mem.store addr (leBytes 4 value)

lemma loadInt_storeInt (addr : Nat) {value : Nat} (h : value < 2 ^ 32) :
    loadInt (storeInt mem addr value) addr = value := by
  rw [loadInt, storeInt, Mem.load_store_leBytes, leNat_leBytes_of_lt (by omega)]

lemma loadInt_storeInt_apart {addr' : Nat} (value : Nat) (h : addr + 4 ≤ addr' ∨ addr' + 4 ≤ addr) :
    loadInt (storeInt mem addr' value) addr = loadInt mem addr := by
  rw [loadInt, storeInt, Mem.load_store_field mem h, loadInt]

variable {mem : Mem}

lemma loadInt_congr
    (h : ∀ a, addr ≤ a → a < addr + 4 → mem' a = mem a) : loadInt mem' addr = loadInt mem addr :=
  congrArg leNat (Mem.load_congr fun i hi => h (addr + i) (by omega) (by omega))

/-- The pools `mp`, `nr_pools` and `last_pool`, and the memory of the pools. -/
structure Smalloc where
  mp : Nat → SmallocPool
  (nrPools lastPool : Nat)
  mem : Mem

def smallocPreRed : Nat := 0xdeadbeef

def smallocPostRed : Nat := 0x5aa55aa5

/-- The blocks `add_pool` gives a pool for an allocation of `size` bytes: `bitmap_blocks`. -/
def bitmapBlocks (size : Nat) : Nat :=
  let allocSize := (size + 4 + 8) % 2 ^ 32
  let allocSize := if allocSize < 8192 * 1024 then 8192 * 1024 else allocSize
  (allocSize + 1023) / 1024 * 1024 % 2 ^ 32 / 1024

def addPool (map size : Nat) : SmallocPool :=
  ⟨map, fun _ => 0, 32 * bitmapBlocks size, bitmapBlocks size, 0⟩

def SmallocPool.mmapSize (pool : SmallocPool) : Nat := pool.nrBlocks * 1024 + pool.nrBlocks * 4

def SmallocPool.ptrValid (pool : SmallocPool) (ptr : Nat) : Bool :=
  decide (pool.map ≤ ptr ∧ ptr < pool.map + pool.nrBlocks * 1024 % 2 ^ 32)

def postredPtr (mem : Mem) (hdr : Nat) : Nat := (hdr + loadInt mem hdr - 4 + 3) / 4 * 4

def fillRedzone (mem : Mem) (hdr : Nat) : Mem :=
  storeInt (storeInt mem (hdr + 4) smallocPreRed) (postredPtr mem hdr) smallocPostRed

/-- The bytes `smalloc_pool` takes for a request: the header, the user area and the redzone, rounded up
    to the size of an `int`. -/
def allocSize (size : Nat) : Nat := (size + 8 + 4 + 3) % 2 ^ 32 / 4 * 4

namespace Smalloc

def smallocPool (z : Ffz) (s : Smalloc) (j size : Nat) : Option (Option Nat × Smalloc) :=
  match (s.mp j).rawSmallocPool z (allocSize size) with
  | none => none
  | some (none, pool) => some (none, { s with mp := update s.mp j pool })
  | some (some hdr, pool) =>
    some (some (hdr + 8), { s with
        mp := update s.mp j pool
        mem := (fillRedzone (storeInt s.mem hdr (allocSize size)) hdr).store (hdr + 8)
          (List.replicate size 0) })

/-- The `for` loop of `smalloc`, over the pools from `i` on. -/
def smallocPools (z : Ffz) (size : Nat) : Nat → Nat → Smalloc → Option (Option Nat × Smalloc)
  | 0, _, s => some (none, s)
  | left + 1, i, s =>
    match s.smallocPool z i size with
    | none => none
    | some (some ptr, s) => some (some ptr, { s with lastPool := i })
    | some (none, s) => smallocPools z size left (i + 1) s

/-- The rounds of `smalloc`; `mmap` says where the mapping of a pool is put, if it succeeds. -/
def smallocRounds (z : Ffz) (mmap : Nat → Option Nat) (size : Nat) :
    Nat → Nat → Smalloc → Option (Option Nat × Smalloc)
  | 0, _, _ => none
  | rounds + 1, i, s =>
    match smallocPools z size (s.nrPools - i) i s with
    | none => none
    | some (some ptr, s) => some (some ptr, s)
    | some (none, s) =>
      -- the pools before the last one are not tried: the loop goes on behind them
      if s.lastPool ≠ 0 then
        smallocRounds z mmap size rounds (max i s.nrPools) { s with lastPool := 0 }
      else if 128 < s.nrPools + 1 then some (none, s)
      else
        match mmap s.nrPools with
        | none => some (none, s)
        | some map =>
          smallocRounds z mmap size rounds s.nrPools
            { s with
              mp := update s.mp s.nrPools (addPool map size)
              nrPools := s.nrPools + 1 }

/-- `smalloc`. -/
def smalloc (z : Ffz) (mmap : Nat → Option Nat) (size : Nat) (s : Smalloc) :
    Option (Option Nat × Smalloc) :=
  smallocRounds z mmap size 3 s.lastPool s

def sfreePool (s : Smalloc) (j ptr : Nat) : Option Smalloc :=
  let hdr := ptr - 8
  let pool := s.mp j
  if pool.ptrValid hdr = false then none
  -- `sfree_check_redzone`
  else if loadInt s.mem (hdr + 4) ≠ smallocPreRed then none
  else if loadInt s.mem (postredPtr s.mem hdr) ≠ smallocPostRed then none
  else
    let offset := hdr - pool.map
    let i := offset / 1024
    let nr := sizeToBlocks (loadInt s.mem hdr)
    match blocksIter maskClear (pool.nrBlocks - i) pool.bitmap i (offset % 1024 / 32) nr with
    | none => none
    | some (_, bitmap) =>
      some { s with
        mp := update s.mp j
          { pool with
            bitmap := bitmap
            nextNonFull := if i < pool.nextNonFull then i else pool.nextNonFull
            freeBlocks := (pool.freeBlocks + nr) % 2 ^ 32 } }

def sfree (s : Smalloc) (ptr : Nat) : Option Smalloc :=
  if ptr = 0 then some s
  else
    match (List.range s.nrPools).find? fun j => (s.mp j).ptrValid ptr with
    | none => none
    | some j => s.sfreePool j ptr

end Smalloc

structure Live where
  (ptr size : Nat)

namespace Live

def hdr (b : Live) : Nat := b.ptr - 8

def blocks (b : Live) : Nat := sizeToBlocks (allocSize b.size)

def Holds (b : Live) (addr : Nat) : Prop := b.hdr ≤ addr ∧ addr < b.hdr + 32 * b.blocks

def Apart (b c : Live) : Prop := b.hdr + 32 * b.blocks ≤ c.hdr ∨ c.hdr + 32 * c.blocks ≤ b.hdr

instance : Std.Symm Apart := ⟨fun _ _ h => h.symm⟩

structure Guarded (b : Live) (mem : Mem) : Prop where
  size : loadInt mem b.hdr = allocSize b.size
  pre : loadInt mem (b.hdr + 4) = smallocPreRed
  post : loadInt mem (b.hdr + allocSize b.size - 4) = smallocPostRed

lemma Guarded.frame {b : Live} (h : b.Guarded mem) (hsz : 12 ≤ allocSize b.size)
    (hhdr : ∀ a, b.hdr ≤ a → a < b.hdr + 8 → mem' a = mem a)
    (hps : ∀ a, b.hdr + allocSize b.size - 4 ≤ a → a < b.hdr + allocSize b.size → mem' a = mem a) :
    b.Guarded mem' where
  size := (loadInt_congr fun a hle hlt => hhdr a hle (by omega)).trans h.size
  pre := (loadInt_congr fun a hle hlt => hhdr a (by omega) (by omega)).trans h.pre
  post := (loadInt_congr fun a hle hlt => hps a hle (by omega)).trans h.post

end Live

variable {size : Nat}

lemma allocSize_spec (h : size ≤ 2 ^ 31) :
    size + 12 ≤ allocSize size ∧ allocSize size ≤ size + 15 ∧ allocSize size % 4 = 0 := by
  unfold allocSize
  omega

lemma sizeToBlocks_spec (h : size < 2 ^ 32 - 32) :
    size ≤ 32 * sizeToBlocks size ∧ 32 * sizeToBlocks size ≤ size + 31 := by
  unfold sizeToBlocks
  omega

lemma bitmapBlocks_spec (h : size ≤ 2 ^ 31) :
    allocSize size ≤ 1024 * bitmapBlocks size ∧ bitmapBlocks size * 1024 ≤ 2 ^ 31 + 1024 := by
  unfold allocSize bitmapBlocks
  simp only
  split_ifs <;> omega

lemma postredPtr_eq {b : Live} (h : b.Guarded mem) (hsz : b.size ≤ 2 ^ 31) (halg : b.hdr % 4 = 0)
    : postredPtr mem b.hdr = b.hdr + allocSize b.size - 4 := by
  have hsp := allocSize_spec hsz
  rw [postredPtr, h.size]
  omega

namespace Smalloc

variable {s s' : Smalloc} {live : List Live} {b c : Live} {j : Nat}

structure At (s : Smalloc) (b : Live) (j start : Nat) : Prop where
  pool : j < s.nrPools
  ptr : b.ptr = (s.mp j).map + 32 * start + 8
  inside : start + b.blocks ≤ 32 * (s.mp j).nrBlocks
  size : b.size ≤ 2 ^ 31

variable {start : Nat}

lemma At.hdr (h : s.At b j start) : b.hdr = (s.mp j).map + 32 * start := by
  rw [Live.hdr, h.ptr, Nat.add_sub_cancel]

lemma At.blocks (h : s.At b j start) :
    allocSize b.size ≤ 32 * b.blocks ∧ 0 < b.blocks ∧ b.blocks < 2 ^ 31 := by
  have hal := allocSize_spec h.size
  have hsz := h.size
  have hblk := sizeToBlocks_spec (show allocSize b.size < 2 ^ 32 - 32 by omega)
  unfold Live.blocks
  omega

structure Mapped (s : Smalloc) : Prop where
  size : ∀ j < s.nrPools, (s.mp j).nrBlocks * 1024 ≤ 2 ^ 31 + 1024
  aligned : ∀ j < s.nrPools, (s.mp j).map % 4 = 0
  apart : ∀ i < s.nrPools, ∀ j < s.nrPools, i ≠ j →
    (s.mp i).map + (s.mp i).mmapSize ≤ (s.mp j).map ∨ (s.mp j).map + (s.mp j).mmapSize ≤ (s.mp i).map

def SamePlaces (s s' : Smalloc) : Prop :=
  s'.nrPools = s.nrPools ∧
    ∀ j, (s'.mp j).map = (s.mp j).map ∧ (s'.mp j).nrBlocks = (s.mp j).nrBlocks

lemma Mapped.of_same (h : s.Mapped) (heq : s.SamePlaces s') : s'.Mapped := by
  obtain ⟨hnr, hpl⟩ := heq
  refine ⟨fun j hj => ?_, fun j hj => ?_, fun i hi j hj hne => ?_⟩
  · rw [(hpl j).2]
    exact h.size j (hnr ▸ hj)
  · rw [(hpl j).1]
    exact h.aligned j (hnr ▸ hj)
  · simp only [mmapSize, (hpl _).1, (hpl _).2]
    exact h.apart i (hnr ▸ hi) j (hnr ▸ hj) hne

lemma At.of_same (h : s.At b j start) (heq : s.SamePlaces s') : s'.At b j start := by
  obtain ⟨hnr, hpl⟩ := heq
  refine ⟨hnr ▸ h.pool, ?_, ?_, h.size⟩
  · rw [(hpl j).1]
    exact h.ptr
  · rw [(hpl j).2]
    exact h.inside

variable {pool : SmallocPool}

lemma samePlaces_update {lastPool : Nat} (h : pool.map = (s.mp j).map)
    (hnr : pool.nrBlocks = (s.mp j).nrBlocks) :
    s.SamePlaces ⟨update s.mp j pool, s.nrPools, lastPool, mem⟩ := by
  refine ⟨rfl, fun i => ?_⟩
  by_cases hi : i = j
  · subst hi
    simp only [update_self]
    exact ⟨h, hnr⟩
  · simp [update_of_ne hi]

lemma Mapped.eq_of_holds (h : s.Mapped) {i start : Nat} (hb : s.At b j start) (hi : i < s.nrPools)
    (hle : (s.mp i).map ≤ addr) (hlt : addr < (s.mp i).map + (s.mp i).nrBlocks * 1024)
    (hhl : b.Holds addr) : i = j := by
  by_contra hne
  have hap := h.apart i hi j hb.pool hne
  have hins := hb.inside
  obtain ⟨hfr, hto⟩ := hhl
  rw [hb.hdr] at hfr hto
  unfold mmapSize at hap
  omega

lemma At.holds_iff {start k : Nat} (h : s.At b j start) :
    b.Holds ((s.mp j).map + 32 * k) ↔ start ≤ k ∧ k < start + b.blocks := by
  rw [Live.Holds, h.hdr]
  omega

lemma Mapped.common_block (h : s.Mapped) {i start start' : Nat} (hb : s.At b j start)
    (hc : s.At c i start') (hover : ¬b.Apart c) :
    ∃ k, start ≤ k ∧ k < start + b.blocks ∧ c.Holds ((s.mp j).map + 32 * k) := by
  have hbh := hb.hdr
  have hch := hc.hdr
  have hbin := hb.inside
  have hcin := hc.inside
  have hbp := hb.blocks.2.1
  have hcp := hc.blocks.2.1
  unfold Live.Apart at hover
  have heq : j = i := by
    by_contra hne
    have hap := h.apart j hb.pool i hc.pool hne
    unfold mmapSize at hap
    omega
  subst heq
  refine ⟨max start start', by omega, by omega, hc.holds_iff.2 ⟨by omega, by omega⟩⟩

/-- The bits that are set are those of the blocks of live allocations, the live allocations are apart,
    and their headers and redzones are as they were written. -/
structure Inv (s : Smalloc) (live : List Live) : Prop where
  mapped : s.Mapped
  free : ∀ j < s.nrPools, (s.mp j).freeBlocks = (s.mp j).clearBlocks
  bits : ∀ j < s.nrPools, ∀ k < 32 * (s.mp j).nrBlocks,
    (blockBit (s.mp j).bitmap k = true ↔ ∃ b ∈ live, b.Holds ((s.mp j).map + 32 * k))
  placed : ∀ b ∈ live, ∃ j start, s.At b j start
  apart : live.Pairwise Live.Apart
  guarded : ∀ b ∈ live, b.Guarded s.mem

lemma Inv.perm {live' : List Live} (h : s.Inv live) (hpr : live.Perm live') : s.Inv live' where
  mapped := h.mapped
  free := h.free
  bits j hj k hk := by
    rw [h.bits j hj k hk]
    simp [hpr.mem_iff]
  placed b hb := h.placed b (hpr.mem_iff.2 hb)
  apart := (hpr.pairwise_iff fun h => h.symm).1 h.apart
  guarded b hb := h.guarded b (hpr.mem_iff.2 hb)

lemma Inv.congr (h : s.Inv live) (hnr : s'.nrPools = s.nrPools) (hmem : s'.mem = s.mem)
    (hpl : ∀ i, (s.mp i).SameBlocks (s'.mp i)) : s'.Inv live := by
  have heq : s.SamePlaces s' := ⟨hnr, fun i => by rw [hpl i]; exact ⟨rfl, rfl⟩⟩
  refine ⟨h.mapped.of_same heq, fun j hj => ?_, fun j hj k hk => ?_, fun b hb => ?_, h.apart,
    fun b hb => hmem ▸ h.guarded b hb⟩
  · rw [hpl j]
    exact h.free j (hnr ▸ hj)
  · rw [hpl j] at hk ⊢
    exact h.bits j (hnr ▸ hj) k hk
  · obtain ⟨j, start, hat⟩ := h.placed b hb
    exact ⟨j, start, hat.of_same heq⟩

lemma At.guarded_frame (hc : s.At c j start) (h : c.Guarded s.mem)
    (hmem : ∀ a, c.Holds a → mem' a = s.mem a) : c.Guarded mem' := by
  have hal := allocSize_spec hc.size
  have hblk := hc.blocks
  exact h.frame (by omega) (fun a hle hlt => hmem a ⟨hle, by omega⟩)
    fun a hle hlt => hmem a ⟨by omega, by omega⟩

section Take

variable {start size lastPool : Nat} {pool : SmallocPool} {mem : Mem}

lemma Inv.take (h : s.Inv live) (hb : s.At b j start)
    (hpl : (s.mp j).Changes pool start b.blocks true)
    (hfr : pool.freeBlocks = (s.mp j).freeBlocks - b.blocks)
    (hmem : ∀ a, ¬b.Holds a → mem a = s.mem a) (hgrd : b.Guarded mem) :
    Inv ⟨update s.mp j pool, s.nrPools, lastPool, mem⟩ (b :: live) := by
  have heq : s.SamePlaces ⟨update s.mp j pool, s.nrPools, lastPool, mem⟩ :=
    samePlaces_update hpl.map hpl.nrBlocks
  have hap : ∀ c ∈ live, b.Apart c := by
    intro c hc
    obtain ⟨i, start', hat⟩ := h.placed c hc
    by_contra hover
    obtain ⟨k, hle, hlt, hhl⟩ := h.mapped.common_block hb hat hover
    have hset := (h.bits j hb.pool k (by have := hpl.run.1; omega)).2 ⟨c, hc, hhl⟩
    rw [hpl.run.2 k hle hlt] at hset
    cases hset
  refine ⟨h.mapped.of_same heq, fun i hi => ?_, fun i hi k hk => ?_, fun c hc => ?_,
    .cons hap h.apart, fun c hc => ?_⟩
  · by_cases hij : i = j
    · subst hij
      simp only [update_self]
      have := hpl.clearBlocks_set
      rw [hfr, h.free i hi]
      omega
    · simp only [update_of_ne hij]
      exact h.free i hi
  · simp only [mem_cons, exists_eq_or_imp]
    by_cases hij : i = j
    · subst hij
      simp only [update_self] at hk ⊢
      rw [hpl.bits, hpl.map, hb.holds_iff, ← h.bits i hi k (hpl.nrBlocks ▸ hk)]
      by_cases hr : start ≤ k ∧ k < start + b.blocks
      all_goals simp [hr]
    · simp only [update_of_ne hij] at hk ⊢
      rw [h.bits i hi k hk]
      refine (or_iff_right fun hhl => hij ?_).symm
      exact h.mapped.eq_of_holds hb hi (by omega) (by omega) hhl
  · obtain rfl | hc := mem_cons.1 hc
    · exact ⟨j, start, hb.of_same heq⟩
    · obtain ⟨i, start', hat⟩ := h.placed c hc
      exact ⟨i, start', hat.of_same heq⟩
  · obtain rfl | hc := mem_cons.1 hc
    · exact hgrd
    · obtain ⟨i, start', hat⟩ := h.placed c hc
      refine hat.guarded_frame (h.guarded c hc) fun a ha => hmem a fun hhl => ?_
      have hdsj := hap c hc
      unfold Live.Apart at hdsj
      unfold Live.Holds at ha hhl
      omega

lemma guarded_fillRedzone (hb : s.At b j start) (h : b.hdr % 4 = 0) :
    let mem := (fillRedzone (storeInt s.mem b.hdr (allocSize b.size)) b.hdr).store (b.hdr + 8)
      (replicate b.size 0)
    b.Guarded mem ∧ ∀ a, ¬b.Holds a → mem a = s.mem a := by
  intro mem
  have hal := allocSize_spec hb.size
  have hsz := hb.size
  have hblk := hb.blocks
  have hps : postredPtr (storeInt s.mem b.hdr (allocSize b.size)) b.hdr =
      b.hdr + allocSize b.size - 4 := by
    rw [postredPtr, loadInt_storeInt _ _ (by omega)]
    omega
  have hmem : mem = (storeInt (storeInt (storeInt s.mem b.hdr (allocSize b.size)) (b.hdr + 4)
      smallocPreRed) (b.hdr + allocSize b.size - 4) smallocPostRed).store (b.hdr + 8)
      (replicate b.size 0) := by
    simp [mem, fillRedzone, hps]
  -- the redzones are outside the user area
  have hus : ∀ {m : Mem} {a : Nat}, a + 4 ≤ b.hdr + 8 ∨ b.hdr + 8 + b.size ≤ a →
      loadInt (m.store (b.hdr + 8) (replicate b.size 0)) a = loadInt m a := by
    intro m a ha
    rw [loadInt, Mem.load_store_disjoint m (by rwa [length_replicate]), loadInt]
  refine ⟨⟨?_, ?_, ?_⟩, fun a ha => ?_⟩
  · rw [hmem, hus (by omega), loadInt_storeInt_apart _ _ (by omega),
      loadInt_storeInt_apart _ _ (by omega), loadInt_storeInt _ _ (by omega)]
  · rw [hmem, hus (by omega), loadInt_storeInt_apart _ _ (by omega), loadInt_storeInt _ _ (by decide)]
  · rw [hmem, hus (by omega), loadInt_storeInt _ _ (by decide)]
  · unfold Live.Holds at ha
    rw [hmem, Mem.store_of_not_mem _ (by rw [length_replicate]; omega), storeInt,
      Mem.store_field_of_not_mem _ (by omega), storeInt,
      Mem.store_field_of_not_mem _ (by omega), storeInt, Mem.store_field_of_not_mem _ (by omega)]

lemma smallocPool_spec (z : Ffz) (h : s.Inv live) (hj : j < s.nrPools) (hsz : size ≤ 2 ^ 31) :
    (∃ s', s.smallocPool z j size = some (none, s') ∧ s'.Inv live ∧ s.SamePlaces s' ∧
      s'.lastPool = s.lastPool) ∨ ∃ ptr s', s.smallocPool z j size = some (some ptr, s') ∧
      ∀ lastPool, Inv { s' with lastPool := lastPool } (⟨ptr, size⟩ :: live) := by
  have hal := allocSize_spec hsz
  have hnr := h.mapped.size j hj
  unfold smallocPool
  obtain ⟨pool, hraw, hblk⟩ | ⟨start, pool, hraw, hchn, -, hfr⟩ :=
    (s.mp j).rawSmallocPool_spec z (show 0 < allocSize size by omega) (by omega) (by omega)
  · rw [hraw]
    refine .inl ⟨_, rfl, h.congr rfl rfl fun i => ?_, ?_, rfl⟩
    · by_cases hij : i = j
      · subst hij
        simpa only [update_self] using hblk
      · simp only [update_of_ne hij]
        rfl
    · rw [hblk]
      exact samePlaces_update rfl rfl
  · rw [hraw]
    refine .inr ⟨_, _, rfl, fun lastPool => ?_⟩
    have hb : s.At ⟨(s.mp j).map + 32 * start + 8, size⟩ j start := ⟨hj, rfl, hchn.run.1, hsz⟩
    have halg := h.mapped.aligned j hj
    have hwrt := guarded_fillRedzone hb (by rw [hb.hdr]; omega)
    simp only [hb.hdr] at hwrt
    exact h.take hb hchn hfr hwrt.2 hwrt.1

end Take

lemma Inv.give {start lastPool : Nat} (h : s.Inv (b :: live)) (hb : s.At b j start)
    (hpl : (s.mp j).Changes pool start b.blocks false)
    (hfr : pool.freeBlocks = (s.mp j).freeBlocks + b.blocks) :
    Inv ⟨update s.mp j pool, s.nrPools, lastPool, s.mem⟩ live := by
  have heq : s.SamePlaces ⟨update s.mp j pool, s.nrPools, lastPool, s.mem⟩ :=
    samePlaces_update hpl.map hpl.nrBlocks
  obtain ⟨hap, hrs⟩ := pairwise_cons.1 h.apart
  refine ⟨h.mapped.of_same heq, fun i hi => ?_, fun i hi k hk => ?_, fun c hc => ?_, hrs,
    fun c hc => h.guarded c (.tail _ hc)⟩
  · by_cases hij : i = j
    · subst hij
      simp only [update_self]
      rw [hfr, h.free i hi, hpl.clearBlocks_clear]
    · simp only [update_of_ne hij]
      exact h.free i hi
  · have hbt := h.bits i hi k
    simp only [mem_cons, exists_eq_or_imp] at hbt
    by_cases hij : i = j
    · subst hij
      simp only [update_self] at hk ⊢
      rw [hpl.bits, hpl.map]
      by_cases hr : start ≤ k ∧ k < start + b.blocks
      · -- another allocation with the block would not be apart from this one
        rw [if_pos hr]
        refine ⟨fun hset => absurd hset (by decide), fun ⟨c, hc, hhl⟩ => ?_⟩
        have hhel := hb.holds_iff.2 hr
        have hdsj := hap c hc
        unfold Live.Apart at hdsj
        unfold Live.Holds at hhl hhel
        omega
      · rw [if_neg hr, hbt (hpl.nrBlocks ▸ hk)]
        exact or_iff_right fun hhl => hr (hb.holds_iff.1 hhl)
    · simp only [update_of_ne hij] at hk ⊢
      rw [hbt hk]
      refine or_iff_right fun hhl => hij ?_
      exact h.mapped.eq_of_holds hb hi (by omega) (by omega) hhl
  · obtain ⟨i, start', hat⟩ := h.placed c (.tail _ hc)
    exact ⟨i, start', hat.of_same heq⟩

lemma At.find_pool (h : s.Mapped) (hb : s.At b j start) :
    ((range s.nrPools).find? fun j => (s.mp j).ptrValid b.ptr) = some j := by
  have hins := hb.inside
  have hblk := hb.blocks
  have hal := allocSize_spec hb.size
  have hvl : (s.mp j).ptrValid b.ptr = true := by
    have := h.size j hb.pool
    rw [ptrValid, hb.ptr, decide_eq_true_eq]
    omega
  cases hfn : (range s.nrPools).find? fun j => (s.mp j).ptrValid b.ptr with
  | none =>
    exact absurd hvl (find?_eq_none.1 hfn j (mem_range.2 hb.pool))
  | some i =>
    obtain ⟨hi, hmem, -⟩ := find?_range_eq_some.1 hfn
    rw [mem_range] at hmem
    rw [ptrValid, decide_eq_true_eq] at hi
    have := h.size i hmem
    have hhl : b.Holds b.ptr := by
      rw [Live.Holds, hb.hdr, hb.ptr]
      omega
    rw [h.eq_of_holds hb hmem hi.1 (by omega) hhl]

lemma sfree_spec (h : s.Inv (b :: live)) : ∃ s', s.sfree b.ptr = some s' ∧ s'.Inv live := by
  obtain ⟨j, start, hb⟩ := h.placed b (mem_cons_self ..)
  have hgrd := h.guarded b (mem_cons_self ..)
  have hal := allocSize_spec hb.size
  have hsz := hb.size
  have hnr := h.mapped.size j hb.pool
  have halg := h.mapped.aligned j hb.pool
  have hins := hb.inside
  have hblk := hb.blocks
  have hhdr := hb.hdr
  have hps := postredPtr_eq hgrd hb.size (by omega)
  have hlen : sizeToBlocks (loadInt s.mem b.hdr) = b.blocks := by
    rw [hgrd.size]
    rfl
  have hr : (s.mp j).Run start b.blocks true := by
    refine ⟨hins, fun k hle hlt => ?_⟩
    exact (h.bits j hb.pool k (by omega)).2 ⟨b, .head _, hb.holds_iff.2 ⟨hle, hlt⟩⟩
  have hoff : b.hdr - (s.mp j).map = 32 * start := by omega
  obtain ⟨bitmap, hit, hbt⟩ := @blocksIter_writes _ _ _ maskClear_writes
    ((s.mp j).nrBlocks - 32 * start / 1024) (s.mp j).bitmap (32 * start / 1024)
    (32 * start % 1024 / 32) b.blocks (by omega) (by omega) (by omega)
    (fun k hle hlt => hr.2 k (by omega) (by omega))
  have hchn : ∀ free next, (s.mp j).Changes ⟨(s.mp j).map, bitmap, free, (s.mp j).nrBlocks, next⟩
      start b.blocks false := by
    refine fun free next => ⟨rfl, rfl, hr, fun k => ?_⟩
    rw [hbt, show 32 * (32 * start / 1024) + 32 * start % 1024 / 32 = start by omega]
  -- the count of the free blocks does not wrap
  have hcl : (s.mp j).freeBlocks + b.blocks < 2 ^ 32 := by
    rw [h.free j hb.pool, ← (hchn 0 0).clearBlocks_clear]
    refine lt_of_le_of_lt (Finset.card_filter_le _ _) ?_
    rw [Finset.card_range]
    change 32 * (s.mp j).nrBlocks < 2 ^ 32
    omega
  have hvl : (s.mp j).ptrValid b.hdr = true := by
    rw [ptrValid, hhdr, decide_eq_true_eq]
    omega
  have hnl : b.ptr ≠ 0 := by
    rw [hb.ptr]
    omega
  unfold sfree sfreePool
  rw [if_neg hnl, At.find_pool h.mapped hb]
  have hbc : b.ptr - 8 = b.hdr := rfl
  simp only [hbc, hvl, hgrd.pre, hps, hgrd.post, hlen, hoff, hit, Bool.true_eq_false, if_false,
    ne_eq, not_true_eq_false]
  exact ⟨_, rfl, h.give hb (hchn _ _) (Nat.mod_eq_of_lt hcl)⟩

def Fresh (s : Smalloc) (map len : Nat) : Prop :=
  map % 4096 = 0 ∧
    ∀ j < s.nrPools, map + len ≤ (s.mp j).map ∨ (s.mp j).map + (s.mp j).mmapSize ≤ map

instance (s : Smalloc) (map len : Nat) : Decidable (s.Fresh map len) :=
  inferInstanceAs (Decidable (_ ∧ ∀ j < s.nrPools, _))

lemma clearBlocks_addPool (map size : Nat) :
    (addPool map size).clearBlocks = (addPool map size).freeBlocks := by
  rw [clearBlocks, addPool, Finset.filter_true_of_mem fun k _ => by simp [blockBit],
    Finset.card_range]

lemma Inv.addPool {size lastPool : Nat} (h : s.Inv live) (hsz : size ≤ 2 ^ 31)
    (hfre : s.Fresh map (addPool map size).mmapSize) :
    Inv ⟨update s.mp s.nrPools (addPool map size), s.nrPools + 1, lastPool, s.mem⟩ live := by
  obtain ⟨halg, hfr⟩ := hfre
  have hold : ∀ {j}, j < s.nrPools →
      update s.mp s.nrPools (FioSsd.addPool map size) j = s.mp j :=
    fun hj => update_of_ne (ne_of_lt hj) _ _
  have hmpd : Mapped
      ⟨update s.mp s.nrPools (FioSsd.addPool map size), s.nrPools + 1, lastPool, s.mem⟩ := by
    refine ⟨fun j hj => ?_, fun j hj => ?_, fun i hi j hj hne => ?_⟩
    · obtain hj | rfl := Nat.lt_succ_iff_lt_or_eq.1 hj
      · simp only [hold hj]
        exact h.mapped.size j hj
      · simp only [update_self]
        exact (bitmapBlocks_spec hsz).2
    · obtain hj | rfl := Nat.lt_succ_iff_lt_or_eq.1 hj
      · simp only [hold hj]
        exact h.mapped.aligned j hj
      · simp only [update_self, FioSsd.addPool]
        omega
    · obtain hi | rfl := Nat.lt_succ_iff_lt_or_eq.1 hi
      · obtain hj | rfl := Nat.lt_succ_iff_lt_or_eq.1 hj
        · simp only [hold hi, hold hj]
          exact h.mapped.apart i hi j hj hne
        · simp only [hold hi, update_self]
          exact (hfr i hi).symm
      · obtain hj | rfl := Nat.lt_succ_iff_lt_or_eq.1 hj
        · simp only [hold hj, update_self]
          exact hfr j hj
        · exact absurd rfl hne
  have hplc : ∀ b ∈ live, ∃ j start, j < s.nrPools ∧ At
      ⟨update s.mp s.nrPools (FioSsd.addPool map size), s.nrPools + 1, lastPool, s.mem⟩
      b j start := by
    intro b hb
    obtain ⟨j, start, hat⟩ := h.placed b hb
    refine ⟨j, start, hat.pool, Nat.lt_succ_of_lt hat.pool, ?_, ?_, hat.size⟩
    · simp only [hold hat.pool]
      exact hat.ptr
    · simp only [hold hat.pool]
      exact hat.inside
  refine ⟨hmpd, fun j hj => ?_, fun j hj k hk => ?_, fun b hb => ?_, h.apart, h.guarded⟩
  · obtain hj | rfl := Nat.lt_succ_iff_lt_or_eq.1 hj
    · simp only [hold hj]
      exact h.free j hj
    · simp only [update_self]
      exact (clearBlocks_addPool map size).symm
  · obtain hj' | rfl := Nat.lt_succ_iff_lt_or_eq.1 hj
    · simp only [hold hj'] at hk ⊢
      exact h.bits j hj' k hk
    · refine ⟨fun hset => ?_, fun ⟨b, hb, hhl⟩ => ?_⟩
      · simp [FioSsd.addPool, blockBit] at hset
      · obtain ⟨j, start, hlt, hat⟩ := hplc b hb
        exact absurd (hmpd.eq_of_holds hat hj (by omega) (by omega) hhl) (by omega)
  · obtain ⟨j, start, -, hat⟩ := hplc b hb
    exact ⟨j, start, hat⟩

lemma SamePlaces.trans {s'' : Smalloc} (h : s.SamePlaces s') (h' : s'.SamePlaces s'') :
    s.SamePlaces s'' :=
  ⟨h'.1.trans h.1, fun j => ⟨(h'.2 j).1.trans (h.2 j).1, (h'.2 j).2.trans (h.2 j).2⟩⟩

lemma Fresh.of_same {len : Nat} (h : s.Fresh map len) (heq : s.SamePlaces s') :
    s'.Fresh map len := by
  refine ⟨h.1, fun j hj => ?_⟩
  simp only [mmapSize, (heq.2 j).1, (heq.2 j).2]
  exact h.2 j (heq.1 ▸ hj)

variable {size : Nat} {mmap : Nat → Option Nat}

def Answers (live : List Live) (size : Nat) (res : Option (Option Nat × Smalloc)) : Prop :=
  (∃ s', res = some (none, s') ∧ s'.Inv live) ∨
    ∃ ptr s', res = some (some ptr, s') ∧ s'.Inv (⟨ptr, size⟩ :: live)

section

variable (z : Ffz) (hsz : size ≤ 2 ^ 31)

include hsz

lemma smallocPools_spec (left : Nat) :
    ∀ {s : Smalloc} {i : Nat}, s.Inv live → left ≤ s.nrPools - i →
      (∃ s', smallocPools z size left i s = some (none, s') ∧ s'.Inv live ∧ s.SamePlaces s' ∧
        s'.lastPool = s.lastPool) ∨ ∃ ptr s', smallocPools z size left i s = some (some ptr, s') ∧
        s'.Inv (⟨ptr, size⟩ :: live) := by
  induction left with
  | zero => exact fun h _ => .inl ⟨_, rfl, h, ⟨rfl, fun _ => ⟨rfl, rfl⟩⟩, rfl⟩
  | succ left ih =>
    intro s i h hlf
    unfold smallocPools
    obtain ⟨s1, hpl, hinv, heq, hla⟩ | ⟨ptr, s1, hpl, hinv⟩ :=
      smallocPool_spec z h (show i < s.nrPools by omega) hsz
    · rw [hpl]
      obtain ⟨s2, hrs, hin2, heq2, hla2⟩ | ⟨ptr, s2, hrs, hin2⟩ :=
        @ih s1 (i + 1) hinv (by rw [heq.1]; omega)
      · exact .inl ⟨s2, hrs, hin2, heq.trans heq2, hla2.trans hla⟩
      · exact .inr ⟨ptr, s2, hrs, hin2⟩
    · rw [hpl]
      exact .inr ⟨ptr, _, rfl, hinv i⟩

lemma smallocRounds_added {n : Nat} (h : s.Inv live) (hnr : s.nrPools = n + 1)
    (hpl : s.mp n = FioSsd.addPool map size) (rounds : Nat) :
    Answers live size (smallocRounds z mmap size (rounds + 1) n s) := by
  have hal := allocSize_spec hsz
  obtain ⟨ptr, pool, hraw⟩ := rawSmallocPool_fresh z map (bitmapBlocks size)
    (by omega) (by omega) (bitmapBlocks_spec hsz).1
  have hrw' : (s.mp n).rawSmallocPool z (allocSize size) = some (some ptr, pool) := by
    rw [hpl]
    exact hraw
  rw [smallocRounds, hnr, Nat.add_sub_cancel_left]
  unfold smallocPools
  obtain ⟨s', hno, -⟩ | ⟨ptr', s', hso, hinv⟩ :=
    smallocPool_spec z h (show n < s.nrPools by omega) hsz
  · rw [smallocPool, hrw'] at hno
    cases congrArg (Option.map Prod.fst) hno
  · rw [hso]
    exact .inr ⟨ptr', _, rfl, hinv n⟩

lemma smallocRounds_answers (h : s.Inv live) (i rounds : Nat) (hla : s.lastPool = 0)
    (hfr : ∀ map ∈ mmap s.nrPools, s.Fresh map (FioSsd.addPool map size).mmapSize) :
    Answers live size (smallocRounds z mmap size (rounds + 2) i s) := by
  unfold smallocRounds
  obtain ⟨s1, hpl, hinv, heq, hla1⟩ | ⟨ptr, s1, hpl, hinv⟩ :=
    @smallocPools_spec live size z hsz (s.nrPools - i) s i h le_rfl
  · simp only [hpl, hla1, hla, ne_eq, not_true_eq_false, if_false]
    split_ifs with hmax
    · exact .inl ⟨s1, rfl, hinv⟩
    · cases hmap : mmap s1.nrPools with
      | none => exact .inl ⟨s1, rfl, hinv⟩
      | some map =>
        have hadd := (hfr map (by rw [← heq.1, hmap]; rfl)).of_same heq
        exact smallocRounds_added z hsz (hinv.addPool hsz hadd) rfl (update_self ..) rounds
  · rw [hpl]
    exact .inr ⟨ptr, s1, rfl, hinv⟩

lemma smalloc_answers (h : s.Inv live)
    (hfr : ∀ map ∈ mmap s.nrPools, s.Fresh map (FioSsd.addPool map size).mmapSize) :
    Answers live size (s.smalloc z mmap size) := by
  by_cases hla : s.lastPool = 0
  · exact smallocRounds_answers z hsz h s.lastPool 1 hla hfr
  unfold smalloc smallocRounds
  obtain ⟨s1, hpl, hinv, heq, hla1⟩ | ⟨ptr, s1, hpl, hinv⟩ :=
    @smallocPools_spec live size z hsz (s.nrPools - s.lastPool) s s.lastPool h le_rfl
  · simp only [hpl, hla1, ne_eq, hla, not_false_eq_true, if_true]
    have hin0 : Inv { s1 with lastPool := 0 } live := hinv.congr rfl rfl fun _ => rfl
    refine smallocRounds_answers z hsz hin0 _ 0 rfl ?_
    intro map hmap
    exact (hfr map (heq.1 ▸ hmap)).of_same (heq.trans ⟨rfl, fun _ => ⟨rfl, rfl⟩⟩)
  · rw [hpl]
    exact .inr ⟨ptr, s1, rfl, hinv⟩

end

end Smalloc

structure Heap where
  alloc : Smalloc
  live : List Live

inductive SmallocCall where
  | smalloc (size : Nat) (mmap : Nat → Option Nat)
  | sfree (n : Nat)
  | write (n offset : Nat) (byte : UInt8)

namespace Heap

def sinit (map : Nat) : Heap where
  alloc :=
    { mp := update (fun _ => ⟨0, fun _ => 0, 0, 0, 0⟩) 0 (addPool map (8192 * 1024))
      nrPools := 1
      lastPool := 0
      mem := fun _ => 0 }
  live := []

variable (z : Ffz)

def step (h : Heap) : SmallocCall → Option Heap
  | .smalloc size mmap =>
    match h.alloc.smalloc z mmap size with
    | none => none
    | some (none, s) => some ⟨s, h.live⟩
    | some (some ptr, s) => some ⟨s, ⟨ptr, size⟩ :: h.live⟩
  | .sfree n =>
    match h.live[n]? with
    | none => none
    | some b => (h.alloc.sfree b.ptr).map fun s => ⟨s, h.live.eraseIdx n⟩
  | .write n offset byte =>
    match h.live[n]? with
    | none => none
    | some b =>
      some { h with
        alloc := { h.alloc with mem := h.alloc.mem.store (b.ptr + offset) [byte] } }

def run (z : Ffz) : List SmallocCall → Heap → Option Heap
  | [], h => some h
  | call :: calls, h => (h.step z call).bind (run z calls)

/-- Requests are for 2^31 bytes at most and a new mapping is put where nothing is mapped; what is freed
    is live, and what is written is in a live allocation. -/
def Allows (h : Heap) : SmallocCall → Prop
  | .smalloc size mmap => size ≤ 2 ^ 31 ∧
      ∀ map ∈ mmap h.alloc.nrPools, h.alloc.Fresh map (addPool map size).mmapSize
  | .sfree n => n < h.live.length
  | .write n offset _ => ∃ b ∈ h.live[n]?, offset < b.size

def AllowsAll (z : Ffz) : List SmallocCall → Heap → Prop
  | [], _ => True
  | call :: calls, h => h.Allows call ∧ ∀ h' ∈ h.step z call, AllowsAll z calls h'

instance (h : Heap) : ∀ call, Decidable (h.Allows call)
  | .smalloc size mmap => inferInstanceAs (Decidable (size ≤ 2 ^ 31 ∧ ∀ map ∈ mmap _, _))
  | .sfree n => inferInstanceAs (Decidable (n < h.live.length))
  | .write n offset _ => inferInstanceAs (Decidable (∃ b ∈ h.live[n]?, offset < b.size))

instance decidableAllowsAll (z : Ffz) : ∀ calls h, Decidable (AllowsAll z calls h)
  | [], _ => isTrue trivial
  | call :: calls, h =>
    have := decidableAllowsAll z calls
    inferInstanceAs (Decidable (h.Allows call ∧ ∀ h' ∈ h.step z call, AllowsAll z calls h'))

/-- **Sound memory.** The live allocations lie inside the pools and do not overlap, the set bits are
    those of their blocks, the clear ones are counted, and the redzones are outside the user areas.
    -/
structure Sound (h : Heap) : Prop where
  inside : ∀ b ∈ h.live, ∃ j < h.alloc.nrPools, (h.alloc.mp j).map ≤ b.hdr ∧
    b.hdr + allocSize b.size ≤ (h.alloc.mp j).map + (h.alloc.mp j).nrBlocks * 1024
  disjoint : h.live.Pairwise fun b c =>
    b.hdr + allocSize b.size ≤ c.hdr ∨ c.hdr + allocSize c.size ≤ b.hdr
  bits : ∀ j < h.alloc.nrPools, ∀ k < 32 * (h.alloc.mp j).nrBlocks,
    (blockBit (h.alloc.mp j).bitmap k = true ↔
      ∃ b ∈ h.live, b.Holds ((h.alloc.mp j).map + 32 * k))
  free : ∀ j < h.alloc.nrPools, (h.alloc.mp j).freeBlocks = (h.alloc.mp j).clearBlocks
  redzones : ∀ b ∈ h.live, b.hdr + 4 + 4 = b.ptr ∧
    b.ptr + b.size ≤ postredPtr h.alloc.mem b.hdr ∧
    postredPtr h.alloc.mem b.hdr + 4 = b.hdr + allocSize b.size

lemma sinit_inv (h : map % 4096 = 0) : (sinit map).alloc.Inv (sinit map).live := by
  have hemp : Smalloc.Inv ⟨fun _ => ⟨0, fun _ => 0, 0, 0, 0⟩, 0, 0, fun _ => 0⟩ [] :=
    ⟨⟨nofun, nofun, nofun⟩, nofun, nofun, nofun, .nil, nofun⟩
  exact hemp.addPool (by decide) ⟨h, nofun⟩

lemma step_inv {h : Heap} (hinv : h.alloc.Inv h.live) {call : SmallocCall} (halw : h.Allows call)
    : ∃ h', h.step z call = some h' ∧ h'.alloc.Inv h'.live := by
  cases call with
  | smalloc size mmap =>
    unfold step
    obtain ⟨s, hcl, hs⟩ | ⟨ptr, s, hcl, hs⟩ := Smalloc.smalloc_answers z halw.1 hinv halw.2
    all_goals
      simp only [hcl]
      exact ⟨_, rfl, hs⟩
  | sfree n =>
    have hn := halw
    have hpr := getElem_cons_eraseIdx_perm hn
    obtain ⟨s, hfr, hs⟩ := Smalloc.sfree_spec (hinv.perm hpr.symm)
    simp only [step, getElem?_eq_getElem hn, hfr]
    exact ⟨_, rfl, hs⟩
  | write n offset byte =>
    obtain ⟨b, hb, hoff⟩ := halw
    rw [Option.mem_def] at hb
    simp only [step, hb]
    have heq : h.alloc.SamePlaces
        { h.alloc with mem := h.alloc.mem.store (b.ptr + offset) [byte] } :=
      ⟨rfl, fun _ => ⟨rfl, rfl⟩⟩
    refine ⟨_, rfl, hinv.mapped.of_same heq, hinv.free, hinv.bits, fun c hc => ?_, hinv.apart,
      fun c hc => ?_⟩
    · obtain ⟨j, start, hat⟩ := hinv.placed c hc
      exact ⟨j, start, hat.of_same heq⟩
    have hmem := mem_of_getElem? hb
    obtain ⟨j, start, hat⟩ := hinv.placed c hc
    obtain ⟨i, start', hbat⟩ := hinv.placed b hmem
    have hal := allocSize_spec hat.size
    have hbal := allocSize_spec hbat.size
    have hblk := hat.blocks
    have hblc := hbat.blocks
    have hhdr : b.ptr = b.hdr + 8 := by rw [hbat.hdr, hbat.ptr]
    -- the byte is between the header and the redzone of its own allocation
    have hapr : c = b ∨ c.Apart b := by
      by_cases hcb : c = b
      · exact .inl hcb
      · exact .inr (hinv.apart.forall hc hmem hcb)
    have haw : ∀ a, a ≠ b.ptr + offset →
        h.alloc.mem.store (b.ptr + offset) [byte] a = h.alloc.mem a :=
      fun a ha => Mem.store_of_not_mem _ (by rw [length_singleton]; omega)
    refine (hinv.guarded c hc).frame (by omega) (fun a hle hlt => haw a ?_)
      fun a hle hlt => haw a ?_
    all_goals
      rcases hapr with rfl | hdsj
      · omega
      · unfold Live.Apart at hdsj
        omega

lemma run_inv (calls : List SmallocCall) : ∀ {h : Heap}, h.alloc.Inv h.live →
    AllowsAll z calls h → ∃ h', run z calls h = some h' ∧ h'.alloc.Inv h'.live := by
  induction calls with
  | nil => exact fun hinv _ => ⟨_, rfl, hinv⟩
  | cons call calls ih =>
    intro h hinv halw
    obtain ⟨h1, hst, hin1⟩ := step_inv z hinv halw.1
    obtain ⟨h2, hr, hin2⟩ := ih hin1 (halw.2 h1 hst)
    exact ⟨h2, by rw [run, hst, Option.bind_some, hr], hin2⟩

lemma sound_of_inv {h : Heap} (hinv : h.alloc.Inv h.live) : h.Sound := by
  refine ⟨fun b hb => ?_, ?_, hinv.bits, hinv.free, fun b hb => ?_⟩
  · obtain ⟨j, start, hat⟩ := hinv.placed b hb
    have hins := hat.inside
    have hblk := hat.blocks
    refine ⟨j, hat.pool, ?_, ?_⟩
    all_goals
      rw [hat.hdr]
      omega
  · refine hinv.apart.imp_of_mem fun {b c} hb hc hdsj => ?_
    obtain ⟨_, _, hbat⟩ := hinv.placed b hb
    obtain ⟨_, _, hcat⟩ := hinv.placed c hc
    have hblc := hbat.blocks
    have hcbl := hcat.blocks
    unfold Live.Apart at hdsj
    omega
  · obtain ⟨j, start, hat⟩ := hinv.placed b hb
    have hal := allocSize_spec hat.size
    have halg := hinv.mapped.aligned j hat.pool
    have hhdr := hat.hdr
    have hptr := hat.ptr
    rw [postredPtr_eq (hinv.guarded b hb) hat.size (by omega)]
    omega

/-- **`smalloc` never hands out memory twice.** In every run of calls of `smalloc`, `sfree` and writes
    to the memory handed out, no assertion fails and the memory is sound. -/
theorem run_sound {map : Nat} (hmap : map % 4096 = 0) (calls : List SmallocCall)
    (hallows : AllowsAll z calls (sinit map)) : ∃ h, run z calls (sinit map) = some h ∧ h.Sound := by
  obtain ⟨h, hr, hinv⟩ := run_inv z calls (sinit_inv hmap) hallows
  exact ⟨h, hr, sound_of_inv hinv⟩

theorem run_sound_reused :
    let calls := [.smalloc 40 fun _ => none, .smalloc 1000 fun _ => none, .write 1 39 7, .sfree 1,
      .smalloc 10 fun _ => none]
    AllowsAll .generic calls (sinit 4096) ∧
      ∃ h, run .generic calls (sinit 4096) = some h ∧ h.Sound := by
  intro calls
  have halw : AllowsAll .generic calls (sinit 4096) := by decide +kernel
  exact ⟨halw, run_sound .generic (by decide) calls halw⟩

lemma run_frees (ns : List Nat) : ∀ {h : Heap}, h.alloc.Inv h.live →
    AllowsAll z (ns.map .sfree) h → ns.length = h.live.length →
    ∃ s, run z (ns.map .sfree) h = some ⟨s, []⟩ ∧ s.Inv [] := by
  induction ns with
  | nil =>
    rintro ⟨s, live⟩ hinv - hlen
    obtain rfl := eq_nil_of_length_eq_zero hlen.symm
    exact ⟨s, rfl, hinv⟩
  | cons n ns ih =>
    intro h hinv halw hlen
    obtain ⟨h₁, hst, hin₁⟩ := step_inv z hinv halw.1
    have hn : n < h.live.length := halw.1
    have hlive : ns.length = h₁.live.length := by
      simp only [step, getElem?_eq_getElem hn, Option.map_eq_some_iff] at hst
      obtain ⟨s, -, rfl⟩ := hst
      rw [length_eraseIdx_of_lt hn, ← hlen, length_cons, Nat.add_sub_cancel]
    obtain ⟨s, hr, hs⟩ := ih hin₁ (halw.2 h₁ hst) hlive
    exact ⟨s, by rw [map_cons, run, hst, Option.bind_some, hr], hs⟩

/-- **`smalloc` leaks nothing**: after every run, what is live can be freed in any order, and then
    every block of every pool is free. -/
theorem run_releases {map : Nat} (hmap : map % 4096 = 0) (calls : List SmallocCall)
    (hallows : AllowsAll z calls (sinit map)) :
    ∃ h, run z calls (sinit map) = some h ∧ ∀ ns : List Nat, ns.length = h.live.length →
      AllowsAll z (ns.map .sfree) h → ∃ s, run z (ns.map .sfree) h = some ⟨s, []⟩ ∧
        ∀ j < s.nrPools, (s.mp j).freeBlocks = 32 * (s.mp j).nrBlocks := by
  obtain ⟨h, hr, hinv⟩ := run_inv z calls (sinit_inv hmap) hallows
  refine ⟨h, hr, fun ns hlen halw => ?_⟩
  obtain ⟨s, hfr, hs⟩ := run_frees z ns hinv halw hlen
  refine ⟨s, hfr, fun j hj => ?_⟩
  rw [hs.free j hj, clearBlocks, Finset.filter_true_of_mem, Finset.card_range]
  intro k hk
  simpa using hs.bits j hj k (Finset.mem_range.1 hk)

theorem run_releases_two :
    ∃ h, run .generic [.smalloc 40 fun _ => none, .smalloc 9 fun _ => none] (sinit 4096) = some h ∧
      ∀ ns : List Nat, ns.length = h.live.length → AllowsAll .generic (ns.map .sfree) h →
        ∃ s, run .generic (ns.map .sfree) h = some ⟨s, []⟩ ∧
          ∀ j < s.nrPools, (s.mp j).freeBlocks = 32 * (s.mp j).nrBlocks :=
  run_releases .generic (by decide) _ (by decide +kernel)

end Heap

def poolMmapSize (size : Nat) : Nat := (bitmapBlocks size * 1024 + bitmapBlocks size * 4) % 2 ^ 32

/-- What `add_pool` returns: `mmap` is the answer of the system, which maps no area of 0 bytes. -/
def addedPool (mmap : Option Nat) (size : Nat) : Option SmallocPool :=
  if poolMmapSize size = 0 then none else mmap.map (addPool · size)

/-- The pool has room for its blocks and its bitmap, and the request gets its area from it. -/
def SmallocPool.HoldsRequest (z : Ffz) (pool : SmallocPool) (size : Nat) : Prop :=
  pool.mmapSize ≤ poolMmapSize size ∧
    (∃ ptr pool', pool.rawSmallocPool z (allocSize size) = some (some ptr, pool')) ∧
    size ≤ sizeToBlocks (allocSize size) * 32

/-- A pool holds the request it is added for exactly if its size, with the header and the bitmap,
    stays below 4 GiB; the last sizes below 4 GiB wrap to a pool of 0 bytes, which is not mapped. -/
theorem addedPool_holdsRequest_iff (z : Ffz) (size : Nat) (hsize : size < 2 ^ 32) :
    (∀ mmap pool, addedPool mmap size = some pool → pool.HoldsRequest z size) ↔
      size ≤ 4278254580 ∨ 2 ^ 32 - 1036 < size ∧ size < 2 ^ 32 - 12 := by
  constructor
  · intro hall
    by_contra hnot
    have hblk : bitmapBlocks size ≠ 0 ∧ bitmapBlocks size < 2 ^ 22 := by
      unfold bitmapBlocks
      dsimp only
      split_ifs <;> omega
    have hmpd : poolMmapSize size ≠ 0 := by
      unfold poolMmapSize
      omega
    obtain ⟨hmp, -, har⟩ := hall (some 0) (addPool 0 size) (by simp [addedPool, hmpd])
    revert hmp har
    unfold SmallocPool.mmapSize poolMmapSize addPool sizeToBlocks allocSize bitmapBlocks
    dsimp only
    split_ifs <;> omega
  · intro hok mmap pool hadd
    unfold addedPool at hadd
    split_ifs at hadd with h0
    obtain ⟨map, -, rfl⟩ := Option.map_eq_some_iff.1 hadd
    rcases hok with hlow | hwr
    · have hsp : size + 12 ≤ allocSize size ∧ allocSize size < 2 ^ 32 - 32 ∧
          allocSize size ≤ 1024 * bitmapBlocks size ∧ bitmapBlocks size ≤ 4177983 := by
        unfold allocSize bitmapBlocks
        dsimp only
        split_ifs <;> omega
      have hblk := sizeToBlocks_spec hsp.2.1
      have hfr := SmallocPool.rawSmallocPool_fresh z map _ (by omega) hsp.2.1 hsp.2.2.1
      refine ⟨?_, hfr, by omega⟩
      unfold SmallocPool.mmapSize poolMmapSize addPool
      dsimp only
      omega
    · refine absurd ?_ h0
      unfold poolMmapSize bitmapBlocks
      dsimp only
      split_ifs <;> omega

theorem addedPool_holdsRequest_page : (addPool 4096 4096).HoldsRequest .generic 4096 :=
  (addedPool_holdsRequest_iff .generic 4096 (by decide)).2 (.inl (by decide)) (some 4096) _ rfl

/-- The pool for a request of 4278254581 bytes needs 2^32 + 256 bytes and is mapped with 256. -/
theorem addedPool_too_small : ∃ pool, addedPool (some 4096) 4278254581 = some pool ∧
    ¬ pool.HoldsRequest .generic 4278254581 := by
  have hmpd : poolMmapSize 4278254581 = 256 := by decide
  have hnd : (addPool 4096 4278254581).mmapSize = 2 ^ 32 + 256 := by decide
  refine ⟨addPool 4096 4278254581, by rw [addedPool, hmpd]; rfl, fun hhl => ?_⟩
  have hft := hhl.1
  omega

end FioSsd
