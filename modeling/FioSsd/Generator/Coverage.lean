import FioSsd.Generator.Chosen

/-! # Covering the whole range

A random job with a random map is to issue every block of its region before it fails to find another
one. -/

namespace FioSsd

variable {ioU : IoU} {fuel i : Nat} {d : RandDraws}

open BitVec Nat History FioFile

variable {scale : Scale} {randMax : Nat} {o : ThreadOptions} {ioHistLen : Int}
  {file file' : FioFile} {ddir : Ddir} {b : Nat}

/-- A random job with one block size for everything, without zones and not time based. -/
structure ThreadOptions.CoversOnce (o : ThreadOptions) : Prop where
  takes : o.TakesBlocks
  ba : ∀ ddir, o.baOf ddir = o.rwMinBs
  minBs : ∀ ddir, o.minBsOf ddir = o.rwMinBs
  maxBs : ∀ ddir, o.maxBsOf ddir = o.rwMinBs
  timeBased : o.timeBased = false
  zoneRange : o.zoneRange = 0
  zoneSkip : o.zoneSkip = 0

structure FioFile.Covered (o : ThreadOptions) (file : FioFile) : Prop where
  mapped : file.Mapped o
  fileOffset : file.fileOffset = 0
  ioSize : file.ioSize.toNat ≤ file.realFileSize.toNat

def FioFile.regionBlocks (o : ThreadOptions) (file : FioFile) : Nat :=
  file.ioSize.toNat / o.rwMinBs.toNat

lemma FioFile.Covered.lastBlock_eq (h : file.Covered o) (ho : o.CoversOnce) (ddir : Ddir) :
    lastBlock o file ddir = file.regionBlocks o := by
  unfold lastBlock regionBlocks
  simp only
  rw [if_neg (by simp [ho.zoneRange]), if_neg (by rw [lt_def]; have := h.ioSize; omega), ho.ba]

lemma FioFile.Covered.words (h : file.Covered o) (hmp : 0 < file.numMaps) :
    (∀ j, j < file.numMaps → j * 64 * o.rwMinBs.toNat < file.realFileSize.toNat) ∧
      file.realFileSize.toNat ≤ file.numMaps * 64 * o.rwMinBs.toNat := by
  have hfit : o.SizesFit file.realFileSize := by
    by_contra hcon
    rw [h.mapped.numMaps, numMapsFor_zero hcon] at hmp
    cases hmp
  have hrb := o.rwMinBs_pos
  have hnum := h.mapped.numMaps
  rw [numMapsFor_eq hfit] at hnum
  have hdiv := Nat.div_add_mod (file.realFileSize.toNat + o.rwMinBs.toNat - 1) o.rwMinBs.toNat
  have hmod := Nat.mod_lt (file.realFileSize.toNat + o.rwMinBs.toNat - 1) hrb
  generalize hq : (file.realFileSize.toNat + o.rwMinBs.toNat - 1) / o.rwMinBs.toNat = q at hnum hdiv
  constructor
  · intro j hj
    have hle : (j * 64 + 1) * o.rwMinBs.toNat ≤ q * o.rwMinBs.toNat :=
      Nat.mul_le_mul_right _ (by omega)
    rw [Nat.add_mul, Nat.one_mul] at hle
    rw [Nat.mul_comm] at hdiv
    omega
  · have hle : q * o.rwMinBs.toNat ≤ file.numMaps * 64 * o.rwMinBs.toNat :=
      Nat.mul_le_mul_right _ (by omega)
    rw [Nat.mul_comm] at hdiv
    omega

lemma FioFile.Covered.regionBlocks_mul_le (o : ThreadOptions) (file : FioFile) :
    file.regionBlocks o * o.rwMinBs.toNat ≤ file.ioSize.toNat :=
  div_mul_le_self _ _

lemma FioFile.Covered.regionBlocks_le (h : file.Covered o) (hmp : 0 < file.numMaps) :
    file.regionBlocks o ≤ file.numMaps * 64 := by
  have hle := (h.words hmp).2
  have hio := h.ioSize
  have hmul := regionBlocks_mul_le o file
  exact le_of_mul_le_mul_right (by omega) o.rwMinBs_pos

lemma freeBlockLoop_none (h : file.Covered o) (hmp : 0 < file.numMaps)
    (hr : freeBlockLoop o file (file.regionBlocks o) fuel i = .ok (none, file')) :
    file' = file ∧ ∀ c, i * 64 ≤ c → c < file.regionBlocks o → file.Marked c := by
  induction fuel generalizing i with
  | zero => exact absurd hr (by simp [freeBlockLoop])
  | succ fuel ih =>
    rw [freeBlockLoop] at hr
    split_ifs at hr with hpos
    · obtain ⟨word, hwr, hr⟩ := of_bind hr
      have hlt := mapWord_lt hwr
      have hi : i < 2 ^ 32 := lt_of_lt_of_le hlt (h.mapped.allocated.le.trans (by decide))
      simp only at hr
      split_ifs at hr with hne hla
      · cases hr
        have hfr := firstFree_of_ffz hwr hi hne
        exact ⟨rfl, fun c hle hc => hfr.first c hle (by omega)⟩
      · cases hr
      · obtain rfl := not_not.1 hne
        obtain ⟨heq, hrs⟩ := ih hr
        refine ⟨heq, fun c hle hc => ?_⟩
        rcases lt_or_ge c ((i + 1) * 64) with hhr | hbhn
        · exact marked_of_allOnes hwr hi hle hhr
        · exact hrs c hbhn hc
    · cases hr
      refine ⟨rfl, fun c hle hc => absurd hc (not_lt.2 (le_trans ?_ hle))⟩
      -- the word starts behind the region
      rcases lt_or_ge i file.numMaps with hlt | hge
      · have hst := (h.words hmp).1 i hlt
        rw [mod_eq_of_lt (lt_trans hst file.realFileSize.isLt)] at hpos
        have hmul := FioFile.Covered.regionBlocks_mul_le o file
        exact le_of_mul_le_mul_right (by omega) o.rwMinBs_pos
      · have hle := h.regionBlocks_le hmp
        omega

lemma FioFile.Covered.searched (h : file.Covered o) (hsrc : file.Searched file') :
    file'.Covered o := by
  obtain ⟨_, _, rfl⟩ := hsrc
  exact ⟨⟨h.mapped.isSome, h.mapped.numMaps, h.mapped.allocated⟩, h.fileOffset, h.ioSize⟩

def FioFile.FullFrom (o : ThreadOptions) (file : FioFile) (i : Nat) : Prop :=
  ∀ c, i * 64 ≤ c → c < file.regionBlocks o → file.Marked c

/-- A block that was found by searching from word `i` on. -/
structure FoundFrom (o : ThreadOptions) (file : FioFile) (i b : Nat) (file' : FioFile) : Prop where
  firstFree : file.FirstFree i b
  le : b ≤ file.regionBlocks o
  /-- The word of the block starts inside the region. -/
  inside : b / 64 * 64 * o.rwMinBs.toNat < file.ioSize.toNat
  word : b / 64 < file.numMaps
  same : ∃ rands, file' = { file with lastFreeLookup := b / 64, failedRands := rands }

lemma freeBlockLoop_inside {lastb : Nat}
    (h : freeBlockLoop o file lastb fuel i = .ok (some b, file')) :
    b / 64 < file.numMaps ∧ b / 64 * 64 * o.rwMinBs.toNat % 2 ^ 64 < file.ioSize.toNat := by
  induction fuel generalizing i with
  | zero => exact absurd h (by simp [freeBlockLoop])
  | succ fuel ih =>
    rw [freeBlockLoop] at h
    split_ifs at h with hpos
    · obtain ⟨word, hwr, h⟩ := of_bind h
      have hlt := mapWord_lt hwr
      simp only at h
      split_ifs at h with hne hla
      · cases h
      · obtain ⟨hb, -⟩ := ok_pair h
        cases hb
        have hbit := (ffz_spec hne).1
        rw [show (i * 64 + ffz word) / 64 = i by omega]
        exact ⟨hlt, hpos.2⟩
      · exact ih h
    · cases h

lemma getNextFreeBlock_covered (h : file.Covered o) (ho : o.CoversOnce) (hmp : 0 < file.numMaps)
    {b? : Option Nat} (hr : getNextFreeBlock o file ddir = .ok (b?, file')) :
    (∃ b, b? = some b ∧ FoundFrom o file file.lastFreeLookup b file') ∨
      b? = none ∧ file' = file ∧ file.FullFrom o file.lastFreeLookup := by
  simp only [getNextFreeBlock, h.lastBlock_eq ho] at hr
  split_ifs at hr with h0
  · cases hr
    exact .inr ⟨rfl, rfl, fun c _ hc => absurd hc (by omega)⟩
  · cases b? with
    | none =>
      obtain ⟨heq, hfl⟩ := freeBlockLoop_none h hmp hr
      exact .inr ⟨rfl, heq, hfl⟩
    | some b =>
      have hnum : file.numMaps ≤ 2 ^ 32 := h.mapped.allocated.le.trans (by decide)
      obtain ⟨hfr, hle, heq⟩ := freeBlockLoop_found hnum hr
      obtain ⟨hwr, hins⟩ := freeBlockLoop_inside hr
      have hst := (h.words hmp).1 _ hwr
      rw [mod_eq_of_lt (lt_trans hst file.realFileSize.isLt)] at hins
      exact .inl ⟨b, rfl, hfr, hle, hins, hwr, file.failedRands, heq⟩

def SearchStart (scale : Scale) (file : FioFile) (i : Nat) : Prop :=
  i = 0 ∨ i = file.lastFreeLookup ∨ ∃ r, i = scale (BitVec.ofNat 64 file.numMaps - 1).toNat r

/-- What `get_next_rand_offset` finds: a block that was drawn, or one it has searched for. -/
def Finds (scale : Scale) (o : ThreadOptions) (file : FioFile) (b : Nat) (file' : FioFile) :
    Prop :=
  b < file.regionBlocks o ∧ file' = { file with failedRands := 0 } ∨
    ∃ i, SearchStart scale file i ∧ FoundFrom o file i b file'

structure FindsNone (o : ThreadOptions) (file file' : FioFile) : Prop where
  full : file.FullFrom o 0
  searched : file.Searched file'
  lookup : file'.lastFreeLookup = 0 ∨ file'.lastFreeLookup = file.lastFreeLookup

variable {file₀ : FioFile} {b? : Option Nat} {r : Nat → Nat}

lemma FoundFrom.of_searched (hsrc : file₀.Searched file) (h : FoundFrom o file i b file')
    : FoundFrom o file₀ i b file' := by
  obtain ⟨_, _, rfl⟩ := hsrc
  obtain ⟨rands, heq⟩ := h.same
  exact ⟨⟨h.firstFree.le, h.firstFree.free, h.firstFree.first⟩, h.le, h.inside, h.word, rands, heq⟩

lemma FioFile.FullFrom.of_searched (hsrc : file₀.Searched file) (h : file.FullFrom o i)
    : file₀.FullFrom o i := by
  obtain ⟨_, _, rfl⟩ := hsrc
  exact h

section

variable (h : file₀.Covered o) (ho : o.CoversOnce) (hmp : 0 < file₀.numMaps)

include h ho hmp

lemma lookupTries_covered
    {left : Nat} (hsrc : file₀.Searched file)
    (hr : lookupTries scale o file ddir r left i = .ok (b?, file')) :
    (∃ b, b? = some b ∧ ∃ j, SearchStart scale file₀ j ∧ FoundFrom o file₀ j b file') ∨
      b? = none ∧ file₀.Searched file' := by
  induction left generalizing file i with
  | zero =>
    cases hr
    exact .inr ⟨rfl, hsrc⟩
  | succ left ih =>
    rw [lookupTries] at hr
    obtain ⟨⟨found, file1⟩, hfr, hr⟩ := of_bind hr
    have hst : file₀.Searched { file with
        lastFreeLookup := scale (BitVec.ofNat 64 file.numMaps - 1).toNat (r i) } :=
      hsrc.trans ⟨_, _, rfl⟩
    have hnum := hsrc.numMaps
    rcases getNextFreeBlock_covered (h.searched hst) ho (hnum ▸ hmp) hfr with
      ⟨b, rfl, hfn⟩ | ⟨rfl, rfl, -⟩
    · cases hr
      refine .inl ⟨b, rfl, _, .inr (.inr ⟨r i, ?_⟩), hfn.of_searched hst⟩
      rw [← hnum]
    · exact ih hst hr

lemma searchFree_covered
    (hsrc : file₀.Searched file) (hr : searchFree o file ddir = .ok (b?, file')) :
    (∃ b, b? = some b ∧ ∃ j, (j = 0 ∨ j = file.lastFreeLookup) ∧ FoundFrom o file₀ j b file') ∨
      b? = none ∧ file₀.FullFrom o 0 ∧ file₀.Searched file' ∧ file'.lastFreeLookup = 0 := by
  obtain ⟨⟨found, file1⟩, hfr, hnx⟩ := of_bind hr
  rcases getNextFreeBlock_covered (h.searched hsrc) ho (hsrc.numMaps ▸ hmp) hfr with
    ⟨b, rfl, hfn⟩ | ⟨rfl, rfl, -⟩
  · cases hnx
    exact .inl ⟨b, rfl, _, .inr rfl, hfn.of_searched hsrc⟩
  · have hst : file₀.Searched { file1 with lastFreeLookup := 0 } := hsrc.trans ⟨_, _, rfl⟩
    rcases getNextFreeBlock_covered (h.searched hst) ho (hst.numMaps ▸ hmp) hnx with
      ⟨b, rfl, hfn⟩ | ⟨rfl, rfl, hfl⟩
    · exact .inl ⟨b, rfl, _, .inl rfl, hfn.of_searched hst⟩
    · exact .inr ⟨rfl, hfl.of_searched hst, hst, rfl⟩

end

section

variable (h : file.Covered o) (ho : o.CoversOnce)

include h ho

lemma getNextFreeBlock_reads (hpos : 0 < file.regionBlocks o) (hlkp : file.lastFreeLookup = 0)
    (hr : getNextFreeBlock o file ddir = .ok (b?, file')) :
    0 < file.numMaps := by
  have hio := (Nat.mul_pos hpos o.rwMinBs_pos).trans_le (FioFile.Covered.regionBlocks_mul_le o file)
  have hrl := h.ioSize
  simp only [getNextFreeBlock, h.lastBlock_eq ho, if_neg (Nat.ne_of_gt hpos), hlkp] at hr
  rw [freeBlockLoop] at hr
  simp only [Nat.zero_mul, Nat.zero_mod] at hr
  rw [if_pos ⟨hio.trans_le hrl, hio⟩] at hr
  obtain ⟨word, hwr, -⟩ := of_bind hr
  exact mapWord_lt hwr

lemma getNextRandOffset_maps (hpos : 0 < file.regionBlocks o)
    (hr : getNextRandOffset scale o file ddir r = .ok (b?, file')) : 0 < file.numMaps := by
  simp only [getNextRandOffset, h.lastBlock_eq ho, if_neg (ne_of_gt hpos)] at hr
  by_cases hfld : 200 ≤ file.failedRands
  · rw [if_pos hfld] at hr
    obtain ⟨⟨found, file1⟩, hfr, hnx⟩ := of_bind hr
    have hsrc := (getNextFreeBlock_spec hfr).1
    cases found with
    | some b =>
      simp only [getNextFreeBlock, h.lastBlock_eq ho, if_neg (ne_of_gt hpos)] at hfr
      exact (zero_le _).trans_lt (freeBlockLoop_inside hfr).1
    | none =>
      have hst : file.Searched { file1 with lastFreeLookup := 0 } := hsrc.trans ⟨_, _, rfl⟩
      have hblk : 0 < regionBlocks o { file1 with lastFreeLookup := 0 } := by
        obtain ⟨_, _, hfl⟩ := hsrc
        rw [hfl]
        exact hpos
      rw [← hst.numMaps]
      exact getNextFreeBlock_reads (h.searched hst) ho hblk rfl hnx
  · rw [if_neg hfld] at hr
    obtain ⟨tried, htr, -⟩ := of_bind hr
    rw [randTries] at htr
    simp only [h.mapped.randommap ho.takes, ho.takes.once, Bool.not_true, Bool.or_false,
      Bool.false_eq_true, if_false] at htr
    obtain ⟨free, hfr, -⟩ := of_bind htr
    obtain ⟨word, hwr, -⟩ := of_bind hfr
    exact (zero_le _).trans_lt (mapWord_lt hwr)

lemma getNextRandOffset_covered (hsc : ScalesInto scale) (hmp : 0 < file.numMaps)
    (hpos : 0 < file.regionBlocks o) (hr : getNextRandOffset scale o file ddir r = .ok (b?, file'))
    :
    (∃ b, b? = some b ∧ Finds scale o file b file') ∨ b? = none ∧ FindsNone o file file' := by
  simp only [getNextRandOffset, h.lastBlock_eq ho, if_neg (ne_of_gt hpos)] at hr
  by_cases hfld : 200 ≤ file.failedRands
  · rw [if_pos hfld] at hr
    rcases searchFree_covered h ho hmp (.refl _) hr with
      ⟨b, rfl, j, hj, hfn⟩ | ⟨rfl, hfl, hsrc, hlkp⟩
    · exact .inl ⟨b, rfl, .inr ⟨j, hj.imp id .inl, hfn⟩⟩
    · exact .inr ⟨rfl, hfl, hsrc, .inl hlkp⟩
  · rw [if_neg hfld] at hr
    obtain ⟨tried, htr, hr⟩ := of_bind hr
    cases tried with
    | some b =>
      cases hr
      have hle := randTries_le hsc htr
      exact .inl ⟨b, rfl, .inl ⟨by omega, rfl⟩⟩
    | none =>
      obtain ⟨⟨found, file1⟩, hlkp, hr⟩ := of_bind hr
      have hst : file.Searched { file with
          failedRands := (file.failedRands + 1) % 2 ^ 32
          lastFreeLookup := if file.failedRands = 0 then 0 else file.lastFreeLookup } := ⟨_, _, rfl⟩
      rcases lookupTries_covered h ho hmp hst hlkp with
        ⟨b, rfl, j, hj, hfn⟩ | ⟨rfl, hsrc⟩
      · cases hr
        exact .inl ⟨b, rfl, .inr ⟨j, hj, hfn⟩⟩
      · have h0 : file.Searched { file1 with lastFreeLookup := 0 } := hsrc.trans ⟨_, _, rfl⟩
        rcases searchFree_covered h ho hmp h0 hr with
          ⟨b, rfl, j, hj, hfn⟩ | ⟨rfl, hfl, hsr', hlk'⟩
        · refine .inl ⟨b, rfl, .inr ⟨j, .inl ?_, hfn⟩⟩
          rcases hj with rfl | rfl <;> rfl
        · exact .inr ⟨rfl, hfl, hsr', .inl hlk'⟩

end

structure FioFile.SameSearch (file file' : FioFile) : Prop where
  sizes : file.SameSizes file'
  fileMap : file'.fileMap = file.fileMap
  numMaps : file'.numMaps = file.numMaps
  lastFreeLookup : file'.lastFreeLookup = file.lastFreeLookup

structure FioFile.Fresh (file : FioFile) : Prop where
  free : ∀ c, c < file.numMaps * 64 → ¬file.Marked c
  lookup : file.lastFreeLookup = 0

/-- The requests that `fill_io_u` makes for a file, with the blocks it has issued. -/
inductive Serves (scale : Scale) (randMax : Nat) (o : ThreadOptions) (ioHistLen : Int)
    (file₀ : FioFile) : List Nat → FioFile → Prop
  | start : Serves scale randMax o ioHistLen file₀ [] file₀
  | other {issued : List Nat} {file file' : FioFile} :
      Serves scale randMax o ioHistLen file₀ issued file → file.SameSearch file' →
      Serves scale randMax o ioHistLen file₀ issued file'
  | fill {issued : List Nat} {s s' : Fill} {d : FillDraws} {failed : Bool} :
      Serves scale randMax o ioHistLen file₀ issued s.file → s.Anew → ddirRw d.ddir = true →
      fillIoU scale randMax o false ioHistLen s d = .ok (failed, s') →
      Serves scale randMax o ioHistLen file₀
        (if failed then issued else History.blockOf o s'.file s'.ioU :: issued) s'.file

def ScalesBelow (scale : Scale) : Prop := ∀ n r, scale n r ≤ n - 1

lemma ScalesBelow.into (h : ScalesBelow scale) : ScalesInto scale :=
  fun n r => le_trans (h n r) (sub_le n 1)

lemma drawScale_below : ScalesBelow drawScale := by
  intro n r
  have hr := Nat.mod_lt r (show 0 < 2 ^ 32 by decide)
  cases n with
  | zero => simp [drawScale, exactScale]
  | succ n =>
    have hlt := Nat.mul_lt_mul_of_pos_left hr (Nat.succ_pos n)
    have hdiv := (Nat.div_lt_iff_lt_mul (by decide)).2 hlt
    exact Nat.lt_succ_iff.1 hdiv

/-- Where a run stands: what is marked has been issued, and with at most two words no search has left out
    a block. -/
structure Issued (o : ThreadOptions) (file₀ : FioFile) (issued : List Nat) (file : FioFile) : Prop where
  covered : file.Covered o
  sizes : file₀.SameSizes file
  numMaps : file.numMaps = file₀.numMaps
  marked : ∀ c, c < file.numMaps * 64 → file.Marked c → c ∈ issued
  lookup : file.numMaps ≤ 2 → ∀ c, c < file.lastFreeLookup * 64 → file.Marked c

variable {issued : List Nat}

section

variable (h : Issued o file₀ issued file)

include h

lemma Issued.sameSearch (heq : file.SameSearch file') :
    Issued o file₀ issued file' := by
  have hmr : ∀ c, file'.Marked c ↔ file.Marked c := fun _ => marked_of_fileMap heq.fileMap
  refine ⟨⟨⟨?_, ?_, ?_⟩, ?_, ?_⟩, h.sizes.trans heq.sizes, heq.numMaps.trans h.numMaps, ?_, ?_⟩
  · rw [heq.fileMap]
    exact h.covered.mapped.isSome
  · rw [heq.numMaps, heq.sizes.realFileSize]
    exact h.covered.mapped.numMaps
  · rw [heq.numMaps]
    exact h.covered.mapped.allocated
  · rw [heq.sizes.fileOffset]
    exact h.covered.fileOffset
  · rw [heq.sizes.ioSize, heq.sizes.realFileSize]
    exact h.covered.ioSize
  · intro c hc hmrk
    rw [heq.numMaps] at hc
    exact h.marked c hc ((hmr c).1 hmrk)
  · intro hnum c hc
    rw [heq.numMaps] at hnum
    rw [heq.lastFreeLookup] at hc
    exact (hmr c).2 (h.lookup hnum c hc)

lemma Issued.searched (hsrc : file.Searched file')
    (hlkp : file.numMaps ≤ 2 → ∀ c, c < file'.lastFreeLookup * 64 → file.Marked c) :
    Issued o file₀ issued file' := by
  have hsz := h.sizes.trans hsrc.sameSizes
  have hcvr := h.covered.searched hsrc
  have hnum := hsrc.numMaps
  refine ⟨hcvr, hsz, hnum.trans h.numMaps, fun c hc hmrk => ?_, fun hle c hc => ?_⟩
  · rw [hnum] at hc
    exact h.marked c hc (hsrc.marked_iff.1 hmrk)
  · rw [hnum] at hle
    exact hsrc.marked_iff.2 (hlkp hle c hc)

lemma Issued.start_full (hsc : ScalesBelow scale) (hmp : 0 < file.numMaps) (hnum : file.numMaps ≤ 2)
    (hst : SearchStart scale file i) {c : Nat} (hc : c < i * 64) :
    file.Marked c := by
  rcases hst with rfl | rfl | ⟨r, rfl⟩
  · omega
  · exact h.lookup hnum c hc
  · have hrn : (BitVec.ofNat 64 file.numMaps - 1).toNat ≤ 1 := by
      rcases (show file.numMaps = 1 ∨ file.numMaps = 2 by omega) with hone | htwo
      · rw [hone]
        decide
      · rw [htwo]
        decide
    have hdraw := hsc (BitVec.ofNat 64 file.numMaps - 1).toNat r
    omega

lemma Issued.finds (hsc : ScalesBelow scale) (hmp : 0 < file.numMaps)
    (hfin : Finds scale o file b file') : Issued o file₀ issued file' := by
  rcases hfin with ⟨-, rfl⟩ | ⟨i, hst, hfn⟩
  · exact h.searched ⟨_, _, rfl⟩ h.lookup
  · obtain ⟨rands, rfl⟩ := hfn.same
    refine h.searched ⟨_, _, rfl⟩ fun hnum c hc => ?_
    -- the words before the one of the block are full, where the search has been and before
    have hlt : c < b := by
      have hwr : c < b / 64 * 64 := hc
      omega
    rcases lt_or_ge c (i * 64) with hpre | hsn
    · exact h.start_full hsc hmp hnum hst hpre
    · exact hfn.firstFree.first c hsn hlt

lemma Issued.findsNone (hno : FindsNone o file file') :
    Issued o file₀ issued file' := by
  refine h.searched hno.searched fun hnum c hc => ?_
  rcases hno.lookup with h0 | heq
  · rw [h0] at hc
    omega
  · rw [heq] at hc
    exact h.lookup hnum c hc

end

lemma getNextRandBlock_once (htm : o.timeBased = false)
    (h : getNextRandBlock scale o ioHistLen file ddir d = .ok (b?, file')) :
    getNextRandOffset scale o file ddir d.first = .ok (b?, file') := by
  obtain ⟨⟨found, file1⟩, hfr, h⟩ := of_bind h
  cases found with
  | some b =>
    cases h
    exact hfr
  | none =>
    simp only [htm, Bool.false_eq_true, if_false] at h
    cases h
    exact hfr

lemma Issued.looks (h : Issued o file₀ issued file) (ho : o.CoversOnce) (hsc : ScalesBelow scale)
    (hr : getNextRandBlock scale o ioHistLen file ddir d = .ok (b?, file')) :
    Issued o file₀ issued file' ∧ file.regionBlocks o ≤ file.numMaps * 64 ∧
      ((∃ b, b? = some b ∧ 0 < file.numMaps ∧ Finds scale o file b file') ∨
        b? = none ∧ file.FullFrom o 0) := by
  have hfr := getNextRandBlock_once ho.timeBased hr
  rcases Nat.eq_zero_or_pos (file.regionBlocks o) with h0 | hpos
  · rw [getNextRandOffset_none (by rw [h.covered.lastBlock_eq ho, h0])] at hfr
    cases hfr
    exact ⟨h, by omega, .inr ⟨rfl, fun c _ hc => absurd hc (by omega)⟩⟩
  · have hmp := getNextRandOffset_maps h.covered ho hpos hfr
    have hle := h.covered.regionBlocks_le hmp
    rcases getNextRandOffset_covered h.covered ho hsc.into hmp hpos hfr with
      ⟨b, rfl, hfn⟩ | ⟨rfl, hno⟩
    · exact ⟨h.finds hsc hmp hfn, hle, .inl ⟨b, rfl, hmp, hfn⟩⟩
    · exact ⟨h.findsNone hno, hle, .inr ⟨rfl, hno.full⟩⟩

lemma Finds.lt (h : file.Covered o) (hmp : 0 < file.numMaps) (hfn : Finds scale o file b file') :
    b < file.numMaps * 64 := by
  rcases hfn with ⟨hlt, -⟩ | ⟨i, -, hfou⟩
  · exact hlt.trans_le (h.regionBlocks_le hmp)
  · have hwr := hfou.word
    omega

lemma Issued.marks (h : Issued o file₀ issued file) (ho : o.CoversOnce) {ioU' : IoU}
    (hbs : ioU.busyOk = false) (hone : mapBlocksOf o ioU = 1)
    (hlt : blockOf o file ioU < file.numMaps * 64) (hr : markMaps o file ioU = .ok (ioU', file')) :
    Issued o file₀ (blockOf o file ioU :: issued) file' := by
  rw [markMaps, if_neg (by simp [ho.takes.once])] at hr
  obtain ⟨⟨ioU1, file1⟩, htake, hr⟩ := of_bind hr
  cases hr
  rw [takeBlocks, if_pos (by rw [ho.takes.rand, h.covered.mapped.randommap ho.takes]; rfl)] at htake
  obtain ⟨n, -, htak⟩ := markRandomMap_takes ho.takes.seqNr hbs htake
  have htk := htak.takes
  have hso := htk.isSome
  have halc := h.covered.mapped.allocated
  obtain ⟨map, rfl⟩ := htk.same
  refine ⟨⟨⟨hso.trans h.covered.mapped.isSome, h.covered.mapped.numMaps, halc⟩,
    h.covered.fileOffset, h.covered.ioSize⟩, h.sizes.trans ⟨rfl, rfl, rfl⟩, h.numMaps,
    fun c hc hmrk => ?_,
    fun hnum c hc => htk.marked_iff.2 (.inl (h.lookup hnum c hc))⟩
  rcases htk.marked_iff.1 hmrk with hold | ⟨b', hle, hlt', hidx, hbit⟩
  · exact List.mem_cons_of_mem _ (h.marked c hc hold)
  · -- the map is too small for two of its blocks to share a bit
    have hn : n ≤ 1 := hone ▸ htk.le
    obtain rfl : b' = blockOf o file ioU := by omega
    have hcn : c < file.numMaps * 64 := hc
    have heq : blockOf o file ioU = c := by
      rcases le_total (blockOf o file ioU) c with hle | hle
      · exact eq_of_randMap hidx hbit hle (by omega)
      · exact (eq_of_randMap hidx.symm hbit.symm hle (by omega)).symm
    rw [heq]
    exact .head _

lemma Request.one_block (ho : o.CoversOnce) {unit : IoU} (h : Request o unit b file ioU) :
    mapBlocksOf o ioU = 1 := by
  have hrb := o.rwMinBs_pos
  have hlen := h.fixed ((ho.minBs _).trans (ho.maxBs _).symm)
  have hnat : ioU.buflen.toNat = o.rwMinBs.toNat := by
    rw [hlen, ho.minBs, toNat_setWidth_of_le (by decide)]
  rw [mapBlocksOf, nrBlkOf_eq h.short, hnat, Nat.add_sub_assoc hrb, Nat.add_div_left _ hrb,
    Nat.div_eq_of_lt (by omega)]
  rfl

lemma Issued.fill {s s' : Fill} {d : FillDraws} {failed : Bool} (h : Issued o file₀ issued s.file)
    (ho : o.CoversOnce) (hsc : ScalesBelow scale) (han : s.Anew) (hrw : ddirRw d.ddir)
    (hr : fillIoU scale randMax o false ioHistLen s d = .ok (failed, s')) :
    Issued o file₀ (if failed then issued else blockOf o s'.file s'.ioU :: issued) s'.file := by
  have hzn : s.directed o d = { s with ioU := d.directed s.ioU } := by
    rw [Fill.directed, switchZone, if_neg (by simp [ho.zoneSkip])]
  rw [fillIoU, if_neg (by simp), if_pos hrw] at hr
  change fillRw scale randMax o ioHistLen (s.directed o d) d = _ at hr
  rw [hzn] at hr
  obtain ⟨-, -, b?, file1, hblk, hfl⟩ :=
    fillRw_block ho.takes.rand ho.takes.seqNr hsc.into (s := { s with ioU := d.directed s.ioU })
      han.seqNr hr
  obtain ⟨hlkd, -, hcs⟩ := h.looks ho hsc hblk
  cases failed with
  | true =>
    rw [if_pos rfl] at hfl
    rw [if_pos rfl, hfl]
    exact hlkd
  | false =>
    simp only [Bool.false_eq_true, if_false] at hfl ⊢
    obtain ⟨b, ioU, rfl, hrqs, hmr⟩ := hfl
    obtain ⟨offset, buflen, hun⟩ := hrqs.same
    rcases hcs with ⟨c, hc, hmp, hfn⟩ | ⟨hno, -⟩
    · cases hc
      have hfr : blockOf o file1 ioU = b := by
        rw [blockOf, hrqs.place, ho.ba, Nat.mul_div_cancel _ o.rwMinBs_pos]
      have hlt : blockOf o file1 ioU < file1.numMaps * 64 := by
        rw [hfr, hlkd.numMaps, ← h.numMaps]
        exact hfn.lt h.covered hmp
      have hisd := hlkd.marks ho (by rw [hun]; exact han.busyOk) (hrqs.one_block ho) hlt hmr
      obtain ⟨_, -, _, heq⟩ := markMaps_unit hmr
      have hbl' : blockOf o s'.file s'.ioU = blockOf o file1 ioU := by
        unfold blockOf
        rw [hisd.sizes.fileOffset, hlkd.sizes.fileOffset, heq]
      rw [hbl']
      exact hisd
    · cases hno

lemma issued_of_serves (ho : o.CoversOnce) (hsc : ScalesBelow scale) (hcvr : file₀.Covered o)
    (hfr : file₀.Fresh) (h : Serves scale randMax o ioHistLen file₀ issued file) :
    Issued o file₀ issued file := by
  induction h with
  | start =>
    refine ⟨hcvr, ⟨rfl, rfl, rfl⟩, rfl, fun c hc hmrk => absurd hmrk (hfr.free c hc), ?_⟩
    intro _ c hc
    rw [hfr.lookup] at hc
    omega
  | other _ heq ih => exact ih.sameSearch heq
  | fill _ han hrw hr ih => exact ih.fill ho hsc han hrw hr

def FioFile.SearchesAll (o : ThreadOptions) (file : FioFile) : Prop :=
  ¬o.rwMinBs.toNat ∣ file.ioSize.toNat ∨ 64 ∣ file.regionBlocks o ∨ file.regionBlocks o ≤ 64 ∨
    file.numMaps ≤ 2

lemma Issued.full_of_last (h : Issued o file₀ issued file) (hsc : ScalesBelow scale)
    (hcn : file.SearchesAll o) (hmp : 0 < file.numMaps) (hfin : Finds scale o file b file')
    (hla : file.ioSize.toNat ≤ b * o.rwMinBs.toNat) : file.FullFrom o 0 := by
  have hrb := o.rwMinBs_pos
  have hmul := FioFile.Covered.regionBlocks_mul_le o file
  have hge := le_of_mul_le_mul_right (hmul.trans hla) hrb
  rcases hfin with ⟨hlt, -⟩ | ⟨i, hst, hfn⟩
  · exact absurd hlt (not_lt.2 hge)
  · have hb := le_antisymm hfn.le hge
    have hwor : ¬64 ∣ b := by
      rintro ⟨k, hk⟩
      have hins := hfn.inside
      rw [show b / 64 * 64 = b by omega] at hins
      exact absurd hins (not_lt.2 hla)
    have hpre : ∀ c, c < i * 64 → file.Marked c := by
      intro c hc
      have hle := hfn.firstFree.le
      rcases hcn with hdvd | hwr | hsm | hnum
      · exact absurd ⟨b, by rw [mul_comm]; exact le_antisymm hla (hb ▸ hmul)⟩ hdvd
      · exact absurd hwr (hb ▸ hwor)
      · omega
      · exact h.start_full hsc hmp hnum hst hc
    intro c _ hc
    rcases lt_or_ge c (i * 64) with hlt | hsn
    · exact hpre c hlt
    · exact hfn.firstFree.first c hsn (hb ▸ hc)

/-- **The first time no offset is found, every block of the region has been issued**, if the block behind
    the region is not taken for one of it. -/
theorem serves_all (ho : o.CoversOnce) (hscale : ScalesBelow scale) (hcovered : file₀.Covered o)
    (hfresh : file₀.Fresh) (hcond : file₀.SearchesAll o) {s s' : Fill} {d : RandDraws}
    (hrun : Serves scale randMax o ioHistLen file₀ issued s.file) (hanew : s.Anew)
    (hfail : getNextOffset scale o ioHistLen s d = .ok (true, s')) :
    ∀ b, b < file₀.regionBlocks o → b ∈ issued := by
  have h := issued_of_serves ho hscale hcovered hfresh hrun
  have hblk : s.file.regionBlocks o = file₀.regionBlocks o := by
    unfold FioFile.regionBlocks
    rw [h.sizes.ioSize]
  have hcn' : s.file.SearchesAll o := by
    rw [FioFile.SearchesAll, hblk, h.sizes.ioSize, h.numMaps]
    exact hcond
  obtain ⟨b?, hblo, hwhy⟩ :=
    getNextOffset_fails ho.takes.rand ho.takes.seqNr hscale.into hanew.seqNr hfail
  obtain ⟨hlkd, hwr, hcs⟩ := h.looks ho hscale hblo
  have hfl : s.file.FullFrom o 0 := by
    rcases hcs with ⟨b, rfl, hmp, hfn⟩ | ⟨-, hfl⟩
    · rcases hwhy with hno | ⟨c, hc, hmn | ⟨offset, hoff, hbhn⟩⟩
      · cases hno
      · -- a number with a bit in the map is not `-1ULL`
        cases hc
        have hlt := hfn.lt h.covered hmp
        have halc := h.covered.mapped.allocated
        have hnat := congrArg BitVec.toNat hmn
        rw [toNat_ofNat, Nat.mod_eq_of_lt (by omega)] at hnat
        exact absurd hnat (by rw [show (-1 : BitVec 64).toNat = 2 ^ 64 - 1 from rfl]; omega)
      · cases hc
        rw [ho.ba] at hoff
        have hio := h.covered.ioSize
        refine h.full_of_last hscale hcn' hmp hfn ?_
        rw [← hoff]
        rcases hbhn with hsz | hrl
        · rw [le_def, hlkd.sizes.ioSize, ← h.sizes.ioSize] at hsz
          exact hsz
        · rw [le_def, hlkd.covered.fileOffset, add_zero, hlkd.sizes.realFileSize,
            ← h.sizes.realFileSize] at hrl
          omega
    · exact hfl
  intro b hb
  rw [← hblk] at hb
  exact h.marked b (by omega) (hfl b (by omega) hb)

def regionFile (region real : Nat) : FioFile :=
  {
    realFileSize := BitVec.ofNat 64 (real * 4096), ioSize := BitVec.ofNat 64 (region * 4096)
    fileMap := some fun _ => 0, numMaps := (real + 63) / 64 }

def nextFill (file : FioFile) : Fill := ⟨default, file, 1, 0⟩

def middleRead (file : FioFile) : Except Fault (Bool × Fill) :=
  fillIoU drawScale 0 randomOptions false 0 (nextFill file)
    ⟨.read, false, ⟨fun _ => 2 ^ 31, fun _ => 2 ^ 31⟩, []⟩

def middleOffset (file : FioFile) : Except Fault (Bool × Fill) :=
  getNextOffset drawScale randomOptions 0 (nextFill file) ⟨fun _ => 2 ^ 31, fun _ => 2 ^ 31⟩

lemma randomOptions_coversOnce : randomOptions.CoversOnce where
  takes := ⟨rfl, rfl, rfl, rfl⟩
  ba := by intro ddir; cases ddir <;> rfl
  minBs := by intro ddir; cases ddir <;> rfl
  maxBs := by intro ddir; cases ddir <;> rfl
  timeBased := rfl
  zoneRange := rfl
  zoneSkip := rfl

lemma regionFile_fresh (region real : Nat) : (regionFile region real).Fresh := by
  refine ⟨?_, rfl⟩
  rintro c - ⟨map, hmap, hbit⟩
  cases hmap
  simp at hbit

theorem serves_all_one : ∃ issued file s', Serves drawScale 0 randomOptions 0 (regionFile 1 1) issued file ∧
    middleOffset file = .ok (true, s') ∧ ∀ b, b < 1 → b ∈ issued := by
  obtain ⟨s1, hfr, s2, hscn, -⟩ : ∃ s1, middleRead (regionFile 1 1) = .ok (false, s1) ∧
      ∃ s2, middleOffset s1.file = .ok (true, s2) ∧ True := by decide +kernel
  have hsrv := Serves.fill .start (s := nextFill (regionFile 1 1)) ⟨rfl, rfl⟩ rfl hfr
  exact ⟨_, s1.file, s2, hsrv, hscn,
    serves_all randomOptions_coversOnce drawScale_below ⟨⟨rfl, by decide, by decide⟩, rfl, by decide⟩
      (regionFile_fresh 1 1) (.inr (.inr (.inl (by decide)))) (s := nextFill s1.file) hsrv ⟨rfl, rfl⟩
      hscn⟩

/-- A region of 65 blocks in a file of 129: the third offset fails, and only the blocks 32 and 64 have
    been issued. -/
theorem serves_not_all : randomOptions.CoversOnce ∧ (regionFile 65 129).Covered randomOptions ∧
    (regionFile 65 129).Fresh ∧ (regionFile 65 129).regionBlocks randomOptions = 65 ∧
    ∃ file s', Serves drawScale 0 randomOptions 0 (regionFile 65 129) [64, 32] file ∧
      middleOffset file = .ok (true, s') := by
  refine ⟨randomOptions_coversOnce, ⟨⟨rfl, by decide, by decide⟩, rfl, by decide⟩,
    regionFile_fresh 65 129, by decide, ?_⟩
  obtain ⟨s1, hfr, hblk, s2, hscn, hbl', s3, hth, -⟩ :
      ∃ s1, middleRead (regionFile 65 129) = .ok (false, s1) ∧
        History.blockOf randomOptions s1.file s1.ioU = 32 ∧
      ∃ s2, middleRead s1.file = .ok (false, s2) ∧ History.blockOf randomOptions s2.file s2.ioU = 64 ∧
      ∃ s3, middleOffset s2.file = .ok (true, s3) ∧ True := by decide +kernel
  have hsr1 := Serves.fill .start (s := nextFill (regionFile 65 129)) ⟨rfl, rfl⟩ rfl hfr
  have hsr2 := Serves.fill hsr1 (s := nextFill s1.file) ⟨rfl, rfl⟩ rfl hscn
  rw [if_neg (by simp), if_neg (by simp), hblk, hbl'] at hsr2
  exact ⟨s2.file, s3, hsr2, hth⟩

end FioSsd
