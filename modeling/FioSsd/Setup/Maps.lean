import FioSsd.Setup.Fixup
import FioSsd.History.Fetch
import FioSsd.History.Backlog
import FioSsd.History.Prune

/-! # The maps and the hash table of a job

Before its first loop a job allocates what the history needs: `init_random_map` (`filesetup.c`) the
two maps of each file, `iohist_hash_init` (`iohist_hash.c`) the hash table. -/

namespace FioSsd

variable {f : FileId} {sizes : FileId → BitVec 64} {file : FioFile} {o : ThreadOptions}
  {hash : KeyHash} {h h' : History}

structure MapAllocs where
  (fileMap fileMap2 : Bool)

/-- The pointers `file_map` and `file_map2`, with the number of words behind them, and `num_maps`. -/
structure RandomMaps where
  (fileMap fileMap2 : Option (Fin (2 ^ 32)))
  numMaps : Nat

instance : Inhabited RandomMaps where
  default := ⟨none, none, 0⟩

def smallocWords (bytes : BitVec 64) : Fin (2 ^ 32) :=
  ⟨(bytes.setWidth 32).toNat / 8, (Nat.div_le_self _ _).trans_lt (bytes.setWidth 32).isLt⟩

def ThreadOptions.numMapsFor (o : ThreadOptions) (realFileSize : BitVec 64) : BitVec 64 :=
  let blocks := (realFileSize + o.rwMinBs.setWidth 64 - 1) / o.rwMinBs.setWidth 64
  (blocks + 64 - 1) / 64

/-- The body of the loop in `init_random_map`, with the flag of its early return. -/
def allocMaps (o : ThreadOptions) (realFileSize : BitVec 64) (allocs : MapAllocs) :
    Bool × RandomMaps :=
  let numMaps := o.numMapsFor realFileSize
  let fileMap := if allocs.fileMap then some (smallocWords (numMaps * 8)) else none
  let fileMap2 := if allocs.fileMap2 then some (smallocWords (2 * numMaps * 8)) else none
  if allocs.fileMap && allocs.fileMap2 then (false, ⟨fileMap, fileMap2, numMaps.toNat⟩)
  else (!o.softrandommap, ⟨fileMap, fileMap2, 0⟩)

def allocFiles (o : ThreadOptions) (sizes : FileId → BitVec 64) (allocs : FileId → MapAllocs) :
    List FileId → (FileId → RandomMaps) → Bool × (FileId → RandomMaps)
  | [], maps => (false, maps)
  | f :: rest, maps =>
    let m := allocMaps o (sizes f) (allocs f)
    if m.1 then (true, Function.update maps f m.2)
    else allocFiles o sizes allocs rest (Function.update maps f m.2)

def initRandomMap (o : ThreadOptions) (sizes : FileId → BitVec 64) (allocs : FileId → MapAllocs)
    (files : List FileId) : Bool × (FileId → RandomMaps) :=
  if o.norandommap || !o.ddirRand then (false, fun _ => default)
  else allocFiles o sizes allocs files fun _ => default

lemma allocMaps_map2 (size : BitVec 64) (allocs : MapAllocs) :
    (allocMaps o size allocs).2.fileMap2.isSome = allocs.fileMap2 := by
  unfold allocMaps
  cases allocs.fileMap <;> cases allocs.fileMap2 <;> rfl

variable {allocs : FileId → MapAllocs}

lemma allocFiles_spec :
    ∀ (files : List FileId) {maps : FileId → RandomMaps},
      (allocFiles o sizes allocs files maps).1 = false →
      ∀ f, (f ∈ files ∨ maps f = (allocMaps o (sizes f) (allocs f)).2) →
        (allocFiles o sizes allocs files maps).2 f = (allocMaps o (sizes f) (allocs f)).2 := by
  intro files
  induction files with
  | nil =>
    intro maps _ f hf
    rcases hf with hf | hf
    · cases hf
    · exact hf
  | cons g rest ih =>
    intro maps hret f hf
    unfold allocFiles at hret ⊢
    simp only at hret ⊢
    split_ifs at hret ⊢
    refine ih hret f ?_
    by_cases hfg : f = g
    · subst hfg
      exact .inr (Function.update_self ..)
    · rw [Function.update_of_ne hfg]
      rcases hf with hf | hf
      · exact .inl ((List.mem_cons.1 hf).resolve_left hfg)
      · exact .inr hf

lemma initRandomMap_map2
    {files : List FileId} (h : (initRandomMap o sizes allocs files).1 = false)
    (hf : f ∈ files) : ((initRandomMap o sizes allocs files).2 f).fileMap2.isSome =
      (o.ddirRand && !o.norandommap && (allocs f).fileMap2) := by
  unfold initRandomMap at h ⊢
  by_cases hsk : (o.norandommap || !o.ddirRand)
  · rw [if_pos hsk]
    have hnon : (o.ddirRand && !o.norandommap) = false := by
      rcases Bool.or_eq_true_iff.1 hsk with hno | hseq
      · rw [hno, Bool.not_true, Bool.and_false]
      · rw [Bool.not_eq_true'] at hseq
        rw [hseq, Bool.false_and]
    rw [hnon, Bool.false_and]
    rfl
  · rw [if_neg hsk] at h ⊢
    rw [allocFiles_spec files h f (.inl hf), allocMaps_map2]
    simp [not_or] at hsk
    rw [hsk.1, hsk.2]
    rfl

/-- `iohist_hash_init`: its nonzero result, and whether the table is allocated. -/
def iohistHashInit (o : ThreadOptions) (mallocOk : Bool) : Bool × Bool :=
  if !(o.randomagain || o.norandommap) && o.minBs ≠ o.maxBs then (false, false)
  else (!mallocOk, mallocOk)

def iohistHashExit (table : Bool) : Except Fault Unit :=
  if table then .ok () else .error .badPointer

lemma iohistHashInit_table {mallocOk : Bool} (h : (iohistHashInit o mallocOk).1 = false) :
    (iohistHashInit o mallocOk).2 = (o.randomagain || o.norandommap || decide (o.minBs = o.maxBs)) := by
  unfold iohistHashInit at h ⊢
  split_ifs at h ⊢ with hsk
  · simp only [Bool.and_eq_true, Bool.not_eq_true', decide_eq_true_eq] at hsk
    rw [hsk.1, decide_eq_false hsk.2]
    rfl
  · have hok : mallocOk = true := by simpa using h
    simp only [Bool.and_eq_true, Bool.not_eq_true', decide_eq_true_eq, not_and, ne_eq, not_not] at hsk
    rw [hok]
    cases hmp : o.randomagain || o.norandommap with
    | true => rfl
    | false => rw [decide_eq_true (hsk hmp)]; rfl

structure Job where
  o : ThreadOptions
  files : List FileId
  maps : FileId → RandomMaps
  /-- Whether `td->iohist_hash` is allocated. -/
  table : Bool

structure JobSpec where
  env : ThreadOptions.FixupEnv
  o : ThreadOptions
  files : List FileId
  sizes : FileId → BitVec 64
  allocs : FileId → MapAllocs
  mallocOk : Bool

variable (s : JobSpec)

/-- `fixup_options`, `init_random_map` and `iohist_hash_init`; a job for which one of them fails does
    not run. -/
def JobSpec.start : Option Job :=
  let fixed := s.o.fixupOptions s.env
  let maps := initRandomMap fixed.2 s.sizes s.allocs s.files
  let table := iohistHashInit fixed.2 s.mallocOk
  if fixed.1 || maps.1 || table.1 then none else some ⟨fixed.2, s.files, maps.2, table.2⟩

def JobSpec.history (job : Job) : History :=
  {
    files := fun f =>
      {
        realFileSize := s.sizes f
        fileMap := (job.maps f).fileMap.map fun _ _ => 0
        fileMap2 :=
          ⟨(job.maps f).fileMap2.getD 0, ((job.maps f).fileMap2.getD 0).isLt, fun _ => .empty⟩
        numMaps := (job.maps f).numMaps } }

variable {s : JobSpec} {job : Job}

lemma JobSpec.start_cases (h : s.start = some job) :
    job.o = (s.o.fixupOptions s.env).2 ∧ job.files = s.files ∧
      (initRandomMap job.o s.sizes s.allocs s.files).1 = false ∧
      job.maps = (initRandomMap job.o s.sizes s.allocs s.files).2 ∧
      (iohistHashInit job.o s.mallocOk).1 = false ∧
      job.table = (iohistHashInit job.o s.mallocOk).2 := by
  unfold start at h
  simp only at h
  split_ifs at h with hfl
  cases h
  simp [not_or] at hfl
  exact ⟨rfl, rfl, hfl.1.2, rfl, hfl.2, rfl⟩

inductive Job.Reaches (hash : KeyHash) (job : Job) (h₀ : History) : History → Prop
  | start : Reaches hash job h₀ h₀
  | step {h h' : History} {op : History.Op} : Reaches hash job h₀ h →
      h.step hash job.o op = .ok h' → Reaches hash job h₀ h'

def Job.Logs (job : Job) (ioU : IoU) : Prop :=
  job.o.ddirWrite = true ∧ ioU.ddir = .write ∧ job.o.doVerify = true ∧ job.o.verify ≠ .verifyNone ∧
    ∃ f ∈ job.files, ioU.file = some f

/-- **The history structures exist whenever they are used.** -/
structure Job.StructuresExist (hash : KeyHash) (job : Job) (h₀ : History) : Prop where
  onSegments : ∀ {h ioU}, job.Reaches hash h₀ h → job.Logs ioU →
    History.OnSegments job.o h.files ioU →
    job.table = true ∧ ∀ f, ioU.file = some f → (job.maps f).fileMap2.isSome = true
  atExit : iohistHashExit job.table = .ok ()

def JobSpec.HasTable : Prop :=
  s.o.fixupMinBs = s.o.fixupMaxBs ∨ s.o.randomWritesAgain = true

/-- If writes vary in size or a `rw` postfix is given, the job is random, nothing turns its random
    maps off, and every segment map could be allocated. -/
def JobSpec.HasMaps : Prop :=
  s.o.fixupMinBs ≠ s.o.fixupMaxBs ∨ 1 < s.o.ddirSeqNr →
    ∀ f ∈ s.files, s.o.ddirRand = true ∧
      ((s.o.norandommap && !s.o.randomWritesAgain) || s.o.alignsBlocks) = false ∧
      (s.allocs f).fileMap2 = true

lemma JobSpec.start_table (hst : s.start = some job)
    (h : job.o.verify ≠ .verifyNone) : job.table = true ↔ s.HasTable := by
  obtain ⟨ho, -, -, -, hret, htb⟩ := start_cases hst
  have hfx : s.o.fixupVerify ≠ .verifyNone := by
    rw [ho] at h
    exact h
  rw [htb, iohistHashInit_table hret, ho]
  change (s.o.fixupRandomagain || s.o.fixupNorandommap || decide (s.o.fixupMinBs = s.o.fixupMaxBs)) =
    true ↔ _
  rw [ThreadOptions.fixupRandomagain_eq hfx]
  simp only [Bool.or_eq_true, decide_eq_true_eq, HasTable]
  constructor
  · rintro ((hag | hmap) | hbs)
    · exact .inr hag
    · exact .inl (ThreadOptions.minBs_eq_of_fixup hfx hmap)
    · exact .inl hbs
  · rintro (hbs | hag)
    · exact .inr hbs
    · exact .inl (.inl hag)

lemma JobSpec.start_map2 (hst : s.start = some job)
    (h : job.o.verify ≠ .verifyNone) (hf : f ∈ s.files) :
    (job.maps f).fileMap2.isSome = true ↔ s.o.ddirRand = true ∧
      ((s.o.norandommap && !s.o.randomWritesAgain) || s.o.alignsBlocks) = false ∧
      (s.allocs f).fileMap2 = true := by
  obtain ⟨ho, -, hret, hmp, -, -⟩ := start_cases hst
  have hfx : s.o.fixupVerify ≠ .verifyNone := by
    rw [ho] at h
    exact h
  rw [hmp, initRandomMap_map2 hret hf, ho, ← ThreadOptions.fixupNorandommap_eq hfx]
  change (s.o.ddirRand && !s.o.fixupNorandommap && (s.allocs f).fileMap2) = true ↔ _
  simp [and_assoc]

lemma segBranch_needs (h : History.segBranch o file = true) :
    o.minBs ≠ o.maxBs ∨ 1 < o.ddirSeqNr := by
  simp [History.segBranch, bne_iff_ne] at h
  exact h.imp And.right id

lemma segBranch_of_again (h : o.minBs ≠ o.maxBs ∨ 1 < o.ddirSeqNr)
    (hag : o.minBs = o.maxBs ∨ o.randomagain = true) : History.segBranch o file = true := by
  unfold History.segBranch
  rcases h with hbs | hseq
  · simp [hag.resolve_left hbs, hbs]
  · simp [hseq]

/-- **The structures of a verifying job exist whenever they are used** if and only if it has a table,
    and, if it writes, the maps its segments need. -/
theorem JobSpec.start_structuresExist_iff (hash : KeyHash) {s : JobSpec} {job : Job}
    (hstart : s.start = some job) (hverify : job.o.verify ≠ .verifyNone)
    (hdo : job.o.doVerify = true) :
    job.StructuresExist hash (s.history job) ↔ s.HasTable ∧ (s.o.ddirWrite = true → s.HasMaps) := by
  have htb := JobSpec.start_table hstart hverify
  obtain ⟨ho, hfl, -⟩ := start_cases hstart
  have hmnb : job.o.minBs = s.o.fixupMinBs := by rw [ho]; rfl
  have hmxb : job.o.maxBs = s.o.fixupMaxBs := by rw [ho]; rfl
  have hsqn : job.o.ddirSeqNr = s.o.ddirSeqNr := by rw [ho]; rfl
  have hwr : job.o.ddirWrite = s.o.ddirWrite := by rw [ho]; rfl
  have hag : job.o.randomagain = s.o.randomWritesAgain := by
    rw [ho] at hverify ⊢
    exact ThreadOptions.fixupRandomagain_eq hverify
  constructor
  · rintro ⟨hsgm, hexi⟩
    have hhas : s.HasTable := by
      refine htb.1 ?_
      by_contra hcon
      rw [iohistHashExit, if_neg hcon] at hexi
      cases hexi
    refine ⟨hhas, fun hw hnd f hf => ?_⟩
    -- the first write to `f` is logged as a segment
    have hlg : job.Logs { ddir := .write, file := some f } :=
      ⟨hwr.trans hw, rfl, hdo, hverify, f, hfl ▸ hf, rfl⟩
    have hseg : History.segBranch job.o ((s.history job).files f) = true := by
      refine segBranch_of_again ?_ ?_
      · rwa [hmnb, hmxb, hsqn]
      · rwa [hmnb, hmxb, hag]
    have hrd := hsgm .start hlg ⟨f, rfl, hseg⟩
    exact (JobSpec.start_map2 hstart hverify hf).1 (hrd.2 f rfl)
  · rintro ⟨hhas, hmp⟩
    have hso := htb.2 hhas
    refine ⟨fun hrc hlg hseg => ⟨hso, fun f hf => ?_⟩, by rw [hso]; rfl⟩
    obtain ⟨hw, -, -, -, g, hg, hfil⟩ := hlg
    obtain rfl := Option.some.inj (hfil.symm.trans hf)
    obtain ⟨g', hfl', hbrn⟩ := hseg
    obtain rfl := Option.some.inj (hfil.symm.trans hfl')
    have hnd := segBranch_needs hbrn
    rw [hmnb, hmxb, hsqn] at hnd
    rw [hfl] at hg
    exact (JobSpec.start_map2 hstart hverify hg).2 (hmp (hwr.symm.trans hw) hnd g hg)

def randwriteSpec (o : ThreadOptions) : JobSpec :=
  { env := default
    o := { o with ddirRead := false, ddirWrite := true, ddirRand := true, verify := .verifyMd5 }
    files := [0], sizes := fun _ => 262144, allocs := fun _ => ⟨true, true⟩, mallocOk := true }

theorem start_structuresExist_fixed :
    ∃ job, (randwriteSpec default).start = some job ∧ job.StructuresExist (fun _ => 0)
      ((randwriteSpec default).history job) := by
  refine ⟨_, rfl, (JobSpec.start_structuresExist_iff _ rfl (by decide) (by decide)).2 ⟨?_, ?_⟩⟩
  · exact .inl (by decide)
  · intro _ hnd
    exact absurd hnd (by decide)

/-- With `bsrange=4k-8k` and the random map in use there is no table, and `iohist_hash_exit` follows
    the null pointer. -/
theorem start_variable_noTable :
    ∃ job, (randwriteSpec { defaultOptions with maxBs := 8192 }).start = some job ∧
      job.o.verify ≠ .verifyNone ∧ job.o.doVerify = true ∧ job.table = false ∧
      iohistHashExit job.table = .error .badPointer := by
  refine ⟨_, rfl, ?_⟩
  decide

end FioSsd
