import FioSsd.Iolog.Replay

/-! # The slots of the file table

`add_file` stores a file at `files[files_index]`, but sizes the array by `nr_files`, an `unsigned int`
that each of its callers counts at another moment or not at all. -/

namespace FioSsd

/-- The file table, the slots last allocated for `td->files`, and for each file that was stored its
    index with the slots there were. -/
structure FileSlots where
  table : FileTable
  slots : Nat
  stores : List (Nat × Nat)

inductive TableEvent
  | nrFiles (n : BitVec 32)
  | names (fnames : List FileName)
  | generated (isDevice : Bool) (jobname : FileName) (fname : Nat → FileName)
  | fixupOptions
  | freeReleaseFiles
  | iologAdd (fname : FileName)
  | traceAddFile (dev : FileName)
  | netioSetup (fname : FileName)
  | dupFiles
  | cloneReset

namespace FileSlots

variable (s : FileSlots)

/-- The slots that `realloc` gives for `int new_size = nr_files + 1`: none if that is negative. -/
def newSlots : Nat :=
  if (s.table.nrFiles + 1) % 2 ^ 32 < 2 ^ 31 then (s.table.nrFiles + 1) % 2 ^ 32 else 0

def addFile (fname : FileName) : FileSlots :=
  let slots := if s.table.filesSize ≤ s.table.filesIndex then s.newSlots else s.slots
  { table := (s.table.addFile fname).2, slots := slots
    stores := s.stores ++ [(s.table.filesIndex, slots)] }

def setNrFiles (n : Nat) : FileSlots := { s with table := { s.table with nrFiles := n } }

variable (fname : FileName)

/-- `add_file` with `nr_files` counted behind it, as the loops over names do. -/
def addCounted : FileSlots :=
  (s.addFile fname).setNrFiles ((s.table.nrFiles + 1) % 2 ^ 32)

/-- `str_filename_cb` and `str_opendir_cb`: the first list starts the count anew. -/
def addNames (fnames : List FileName) : FileSlots :=
  fnames.foldl addCounted (if s.table.filesIndex = 0 then s.setNrFiles 0 else s)

def generatedNames (isDevice : Bool) (jobname : FileName) (fname : Nat → FileName) :
    List FileName :=
  if s.table.nrFiles = 1 ∧ isDevice = true then [jobname]
  else (List.range s.table.nrFiles).map fname

def step : TableEvent → FileSlots
  -- the option `nrfiles`, and the cpu engine
  | .nrFiles n => s.setNrFiles n.toNat
  | .names fnames => s.addNames fnames
  | .generated isDevice jobname fname =>
    if s.table.filesIndex = 0 then (s.generatedNames isDevice jobname fname).foldl addFile s else s
  | .fixupOptions =>
    if s.table.filesIndex < s.table.nrFiles then s.setNrFiles s.table.filesIndex else s
  | .freeReleaseFiles => { s with table := { s.table with filesIndex := 0 } }
  -- an `add` line of a log
  | .iologAdd fname => (s.setNrFiles ((s.table.nrFiles + 1) % 2 ^ 32)).addFile fname
  -- `add_file_exclusive`
  | .traceAddFile dev =>
    match s.table.forEachFile fun f => decide (f.fileName = dev) with
    | some _ => s
    | none => s.addFile dev
  | .netioSetup fname =>
    if s.table.filesIndex = 0 then
      (s.addFile fname).setNrFiles (if s.table.nrFiles = 0 then 1 else s.table.nrFiles)
    else s
  -- `get_new_job` copies `struct thread_data`, then `dup_files` allocates
  | .dupFiles => { s with slots := if s.slots = 0 then 0 else s.table.filesIndex }
  -- a further job of a job with generated names
  | .cloneReset => { s with table := { s.table with filesIndex := 0, filesSize := 0 }, slots := 0 }

def run (events : List TableEvent) : FileSlots := events.foldl step s

variable (directory : Option FileName)

def start : FileSlots :=
  { table :=
      { files := fun _ => none, filesIndex := 0, filesSize := 0, nrFiles := 1
        directory := directory }
    slots := 0, stores := [] }

def InRange : Prop := ∀ store ∈ s.stores, store.1 < store.2

/-- What an event needs: `nr_files` counts the files, or there is room for the new ones; where files
    are added, `nr_files + 1` is an `int`; and a copy is made of a table without spare slots. -/
def Counted : TableEvent → Prop
  | .names fnames => s.table.nrFiles + fnames.length < 2 ^ 31 ∧
      (s.table.filesIndex ≤ s.table.nrFiles ∨
        s.table.filesIndex + fnames.length ≤ s.table.filesSize)
  | .generated .. | .netioSetup _ => s.table.nrFiles + 1 < 2 ^ 31
  | .traceAddFile _ => s.table.nrFiles + 1 < 2 ^ 31 ∧
      (s.table.filesIndex ≤ s.table.nrFiles ∨ s.table.filesIndex < s.table.filesSize)
  | .iologAdd _ => s.table.nrFiles + 2 < 2 ^ 31 ∧
      (s.table.filesIndex ≤ s.table.nrFiles + 1 ∨ s.table.filesIndex < s.table.filesSize)
  | .dupFiles => s.table.filesSize ≤ s.table.filesIndex
  | .nrFiles _ | .fixupOptions | .freeReleaseFiles | .cloneReset => True

def AllCounted (s : FileSlots) : List TableEvent → Prop
  | [] => True
  | e :: rest => s.Counted e ∧ AllCounted (s.step e) rest

/-- `files_size` is covered by the array, and the stores were in range. -/
structure Sound : Prop where
  size : s.table.filesSize ≤ s.slots
  inRange : s.InRange

variable {s}

@[simp] lemma addFile_filesIndex :
    (s.addFile fname).table.filesIndex = s.table.filesIndex + 1 := rfl

@[simp] lemma addFile_nrFiles :
    (s.addFile fname).table.nrFiles = s.table.nrFiles := rfl

lemma newSlots_eq (h : s.table.nrFiles + 1 < 2 ^ 31) : s.newSlots = s.table.nrFiles + 1 := by
  rw [newSlots, Nat.mod_eq_of_lt (by omega), if_pos h]

lemma addFile_filesSize (h : s.table.nrFiles + 1 < 2 ^ 31) (fname : FileName) :
    (s.addFile fname).table.filesSize =
      if s.table.filesSize ≤ s.table.filesIndex then s.table.nrFiles + 1 else s.table.filesSize := by
  rw [← Nat.mod_eq_of_lt (show s.table.nrFiles + 1 < 2 ^ 32 by omega)]
  rfl

lemma Sound.setNrFiles (h : s.Sound) (n : Nat) : (s.setNrFiles n).Sound := ⟨h.size, h.inRange⟩

lemma Sound.addFile (hs : s.Sound) (fname : FileName) (hint : s.table.nrFiles + 1 < 2 ^ 31)
    (h : s.table.filesIndex ≤ s.table.nrFiles ∨ s.table.filesIndex < s.table.filesSize) :
    (s.addFile fname).Sound := by
  have hsz := hs.size
  have hslots : (s.addFile fname).slots =
      if s.table.filesSize ≤ s.table.filesIndex then s.table.nrFiles + 1 else s.slots := by
    rw [← newSlots_eq hint]
    rfl
  refine ⟨?_, fun store hst => ?_⟩
  · rw [addFile_filesSize hint, hslots]
    split_ifs
    · exact le_rfl
    · exact hsz
  · rcases List.mem_append.1 hst with hold | hnew
    · exact hs.inRange store hold
    · rw [List.mem_singleton.1 hnew]
      change s.table.filesIndex < (s.addFile fname).slots
      rw [hslots]
      split_ifs <;> omega

lemma Sound.foldl_addCounted (hs : s.Sound) (fnames : List FileName)
    (hint : s.table.nrFiles + fnames.length < 2 ^ 31) (h : s.table.filesIndex ≤ s.table.nrFiles ∨
      s.table.filesIndex + fnames.length ≤ s.table.filesSize) :
    (fnames.foldl addCounted s).Sound := by
  induction fnames generalizing s with
  | nil => exact hs
  | cons fname rest ih =>
    rw [List.length_cons] at h hint
    have hnr : (s.addCounted fname).table.nrFiles = s.table.nrFiles + 1 :=
      Nat.mod_eq_of_lt (by omega)
    have hsize : (s.addCounted fname).table.filesSize = _ := addFile_filesSize (by omega) fname
    have hidx : (s.addCounted fname).table.filesIndex = s.table.filesIndex + 1 := rfl
    refine ih ((hs.addFile fname (by omega) (by omega)).setNrFiles _) (by omega) ?_
    rw [hnr, hidx, hsize]
    split_ifs <;> omega

lemma Sound.foldl_addFile (hs : s.Sound) (fnames : List FileName)
    (hint : s.table.nrFiles + 1 < 2 ^ 31) (h : s.table.filesIndex + fnames.length ≤ s.table.nrFiles)
    :
    (fnames.foldl FileSlots.addFile s).Sound := by
  induction fnames generalizing s with
  | nil => exact hs
  | cons fname rest ih =>
    rw [List.length_cons] at h
    refine ih (hs.addFile fname hint (by omega)) hint ?_
    rw [addFile_filesIndex, addFile_nrFiles]
    omega

lemma length_generatedNames (isDevice : Bool) (jobname : FileName) (fname : Nat → FileName) :
    (s.generatedNames isDevice jobname fname).length = s.table.nrFiles := by
  unfold generatedNames
  split_ifs with hone
  · exact hone.1.symm
  · rw [List.length_map, List.length_range]

lemma Sound.step (h : s.Sound) {e : TableEvent} (he : s.Counted e) : (s.step e).Sound := by
  have hsz := h.size
  cases e with
  | nrFiles n => exact h.setNrFiles _
  | names fnames =>
    simp only [FileSlots.step, addNames]
    split_ifs with h0
    · have hint := (Nat.add_le_add_right (Nat.zero_le _) _).trans_lt he.1
      exact (h.setNrFiles 0).foldl_addCounted fnames hint (.inl h0.le)
    · exact h.foldl_addCounted fnames he.1 he.2
  | generated isDevice jobname fname =>
    simp only [FileSlots.step]
    split_ifs with h0
    · exact h.foldl_addFile _ he (by rw [length_generatedNames, h0, zero_add])
    · exact h
  | fixupOptions =>
    simp only [FileSlots.step]
    split_ifs
    · exact h.setNrFiles _
    · exact h
  | freeReleaseFiles => exact ⟨hsz, h.inRange⟩
  | iologAdd fname =>
    have hnr := Nat.mod_eq_of_lt (show s.table.nrFiles + 1 < 2 ^ 32 by have := he.1; omega)
    simp only [FileSlots.step, hnr]
    exact (h.setNrFiles _).addFile fname he.1 he.2
  | traceAddFile dev =>
    simp only [FileSlots.step]
    split
    · exact h
    · exact h.addFile dev he.1 he.2
  | netioSetup fname =>
    simp only [FileSlots.step]
    split_ifs with h0
    · exact (h.addFile fname he (.inl (by omega))).setNrFiles _
    · exact (h.addFile fname he (.inl (by omega))).setNrFiles _
    · exact h
  | dupFiles =>
    refine ⟨?_, h.inRange⟩
    change s.table.filesSize ≤ if s.slots = 0 then 0 else s.table.filesIndex
    split_ifs with hnl
    · omega
    · exact he
  | cloneReset => exact ⟨le_rfl, h.inRange⟩

lemma Sound.run (hs : s.Sound) (events : List TableEvent) (h : s.AllCounted events) :
    (s.run events).Sound := by
  induction events generalizing s with
  | nil => exact hs
  | cons e rest ih => exact ih (hs.step h.1) h.2

lemma sound_start : (start directory).Sound :=
  ⟨le_rfl, nofun⟩

/-- **The table does not overflow while the files are counted** in an `int`, or there is room for the
    new ones, and tables are copied without spare slots. -/
theorem inRange_of_counted (events : List TableEvent)
    (hcounted : (start directory).AllCounted events) : ((start directory).run events).InRange :=
  ((sound_start directory).run events hcounted).inRange

theorem inRange_of_counted_names :
    (start none).AllCounted [.names [[97], [98]], .fixupOptions] ∧
      ((start none).run [.names [[97], [98]], .fixupOptions]).InRange := by
  have hcnt : (start none).AllCounted [.names [[97], [98]], .fixupOptions] :=
    ⟨⟨by decide, .inl (by decide)⟩, trivial, trivial⟩
  exact ⟨hcnt, inRange_of_counted none _ hcnt⟩

/-- A trace with two devices: `nr_files` is 0 for a job without file names, and is not counted. -/
theorem trace_of_two_devices :
    ¬ ((start none).run [.fixupOptions, .traceAddFile [97], .traceAddFile [98]]).InRange := by
  intro hrn
  exact absurd (hrn (1, 1) (by decide)) (by decide)

end FileSlots

end FioSsd
