import FioSsd.Iolog.Replay

/-! # Loading blktrace data

`load_blktrace` reads the records of a block layer trace. For every queue record it makes sure that
the record's device is among the job's files (`trace_add_file`), and queues a piece with its range.
-/

namespace FioSsd

open List Replay FileTable

structure BlkIoTrace where
  (time sector : BitVec 64)
  (bytes action device cpu : BitVec 32)
  deriving DecidableEq

/-- `BLK_TC_WRITE`, `BLK_TC_PC`, `BLK_TC_NOTIFY` and `BLK_TC_DISCARD`. -/
def blkTcWrite : BitVec 32 := 1 <<< 1
@[inherit_doc blkTcWrite] def blkTcPc : BitVec 32 := 1 <<< 9
@[inherit_doc blkTcWrite] def blkTcNotify : BitVec 32 := 1 <<< 10
@[inherit_doc blkTcWrite] def blkTcDiscard : BitVec 32 := 1 <<< 13

def BlkIoTrace.has (t : BlkIoTrace) (category : BitVec 32) : Bool :=
  t.action &&& (category <<< 16) != 0

def BlkIoTrace.isQueue (t : BlkIoTrace) : Bool := t.action &&& 0xffff == 1

def fmajor (dev : BitVec 32) : Nat := dev.toNat / 2 ^ 20
def fminor (dev : BitVec 32) : Nat := dev.toNat % 2 ^ 20

/-- What a load depends on: `lookup_device`, which may also give the same path for every device
    (`replay_redirect`), `read_only` and `no_stall`. -/
structure TraceOpts where
  lookupDevice : Nat → Nat → Option FileName
  (readOnly noStall : Bool)

/-- The job, the static variables of `trace_add_file` and the local variables of
    `load_blktrace`. -/
structure TraceJob where
  table : FileTable
  ioLogList : List LogPiece
  (totalIoSize size : BitVec 64)
  (lastMaj lastMin : Nat)
  ios : Fin 2 → BitVec 64
  rwBs : Fin 2 → BitVec 32
  ttime : BitVec 64
  cpu : BitVec 32
  skippedWrites : BitVec 64

namespace TraceJob

variable (o : TraceOpts) (s : TraceJob)

def queueIoPiece (ipo : LogPiece) : TraceJob :=
  { s with ioLogList := s.ioLogList ++ [ipo], totalIoSize := s.totalIoSize + ipo.len }

def traceAddOpenEvent (fileno : Nat) : TraceJob :=
  { s with
    ioLogList := s.ioLogList ++
      [{ LogPiece.initIpo with ddir := .inval, fileno := fileno, aux := .action .openFile }] }

/-- The path that `trace_add_file` adds for a device: none if the device is that of the record
    before, a file of the job has its numbers, or the lookup fails. -/
def addedPath (device : BitVec 32) : Option FileName :=
  if s.lastMaj = fmajor device ∧ s.lastMin = fminor device then none
  else
    match s.table.forEachFile fun f =>
        decide (f.major = fmajor device ∧ f.minor = fminor device) with
    | some _ => none
    | none => o.lookupDevice (fmajor device) (fminor device)

def traceAddFile (device : BitVec 32) : TraceJob :=
  let s' := { s with lastMaj := fmajor device, lastMin := fminor device }
  match s.addedPath o device with
  | none => s'
  | some dev =>
    { s' with table := (s.table.addFileExclusive dev).2 }.traceAddOpenEvent
      (s.table.addFileExclusive dev).1

def storeIpo (offset : BitVec 64) (bytes : BitVec 32) (rw : Bool) (ttime : BitVec 64) : TraceJob :=
  s.queueIoPiece
    { LogPiece.initIpo with
      offset := offset * 512, len := bytes.setWidth 64, aux := .delay (ttime / 1000)
      ddir := if rw then .write else .read }

variable (t : BlkIoTrace)

/-- `handle_trace_discard`: the piece is cleared once more behind `init_ipo`. -/
def handleTraceDiscard (ttime : BitVec 64) : TraceJob :=
  let s := s.traceAddFile o t.device
  { s with
    ios := Function.update s.ios 1 (s.ios 1 + 1)
    size := s.size + t.bytes.setWidth 64 }.queueIoPiece
    { LogPiece.initIpo with
      trimList := .null, offset := t.sector * 512, len := t.bytes.setWidth 64
      aux := .delay (ttime / 1000), ddir := .trim }

def handleTraceFs (ttime : BitVec 64) : TraceJob :=
  let s := s.traceAddFile o t.device
  let rw : Fin 2 := if t.has blkTcWrite then 1 else 0
  { s with
    rwBs := if (s.rwBs rw).toNat < t.bytes.toNat then Function.update s.rwBs rw t.bytes else s.rwBs
    ios := Function.update s.ios rw (s.ios rw + 1)
    size := s.size + t.bytes.setWidth 64 }.storeIpo t.sector t.bytes (t.has blkTcWrite) ttime

def handleTrace (ttime : BitVec 64) : TraceJob :=
  if t.isQueue = false then s
  else if t.has blkTcPc then s
  else if t.has blkTcNotify then s
  else if t.has blkTcDiscard then s.handleTraceDiscard o t ttime
  else s.handleTraceFs o t ttime

def recordDelay : BitVec 64 :=
  let ttime := if s.ttime = 0 then t.time else s.ttime
  let cpu := if s.ttime = 0 then t.cpu else s.cpu
  if o.noStall then 0 else if cpu = t.cpu then t.time - ttime else 0

def traceRecord : TraceJob :=
  if t.has blkTcNotify then s.handleTrace o t 0
  else
    let s' :=
      if t.has blkTcWrite && o.readOnly then { s with skippedWrites := s.skippedWrites + 1 }
      else s.handleTrace o t (s.recordDelay o t)
    { s' with ttime := t.time, cpu := t.cpu }

def loadBlktrace (records : List BlkIoTrace) : TraceJob := records.foldl (traceRecord o) s

/-- A job before `load_blktrace`, with the device that an earlier load in the same process left in
    `last_maj` and `last_min`. -/
def start (table : FileTable) (lastMaj lastMin : Nat) : TraceJob :=
  { table := table, ioLogList := [], totalIoSize := 0, size := 0, lastMaj := lastMaj
    lastMin := lastMin, ios := fun _ => 0, rwBs := fun _ => 0, ttime := 0, cpu := 0
    skippedWrites := 0 }

end TraceJob

def BlkIoTrace.Queued (o : TraceOpts) (t : BlkIoTrace) : Prop :=
  t.isQueue = true ∧ t.has blkTcPc = false ∧ t.has blkTcNotify = false ∧
    ¬ (t.has blkTcWrite = true ∧ o.readOnly = true)
deriving Decidable

namespace TraceJob

variable {o : TraceOpts} {s s' : TraceJob} {t : BlkIoTrace}

def devPath (maj min : Nat) : FileName := [47, 100, UInt8.ofNat maj, UInt8.ofNat min]

def oneFile : FileTable :=
  { files := fun i => if i = 0 then some ⟨devPath 8 0, 0, 0⟩ else none
    filesIndex := 1, filesSize := 1, nrFiles := 1, directory := none }

variable (device : BitVec 32)

def queueRead : BlkIoTrace :=
  { time := 1, sector := 8, bytes := 4096, action := 0x110001, device := device, cpu := 0 }

def devOpts : TraceOpts :=
  { lookupDevice := fun maj min => some (devPath maj min), readOnly := false, noStall := false }

structure SameQueue (s s' : TraceJob) : Prop where
  table : s'.table = s.table
  list : s'.ioLogList = s.ioLogList
  maj : s'.lastMaj = s.lastMaj
  min : s'.lastMin = s.lastMin

lemma handleTrace_of_not_queue (ttime : BitVec 64)
    (h : ¬ (t.isQueue = true ∧ t.has blkTcPc = false ∧ t.has blkTcNotify = false)) :
    s.handleTrace o t ttime = s := by
  unfold handleTrace
  split_ifs with hq hpc hn
  · rfl
  · rfl
  · rfl
  all_goals exact absurd ⟨by simpa using hq, by simpa using hpc, by simpa using hn⟩ h

lemma traceRecord_of_not_queued (h : ¬ t.Queued o) : SameQueue s (s.traceRecord o t) := by
  unfold traceRecord
  by_cases hntf : t.has blkTcNotify = true
  · rw [if_pos hntf, handleTrace_of_not_queue 0 (by simp [hntf])]
    exact ⟨rfl, rfl, rfl, rfl⟩
  · rw [if_neg hntf]
    by_cases hsk : (t.has blkTcWrite && o.readOnly) = true
    · rw [if_pos hsk]
      exact ⟨rfl, rfl, rfl, rfl⟩
    · rw [if_neg hsk, handleTrace_of_not_queue]
      · exact ⟨rfl, rfl, rfl, rfl⟩
      · rintro ⟨hq, hpc, hn⟩
        exact h ⟨hq, hpc, hn, by simpa using hsk⟩

/-- What a queued record does: its device is looked after, and a piece for file 0 is queued. -/
structure QueuesPiece (o : TraceOpts) (t : BlkIoTrace) (s s' : TraceJob) (p : LogPiece) : Prop where
  list : s'.ioLogList = (s.traceAddFile o t.device).ioLogList ++ [p]
  table : s'.table = (s.traceAddFile o t.device).table
  maj : s'.lastMaj = fmajor t.device
  min : s'.lastMin = fminor t.device
  fileno : p.fileno = 0
  io : p.ddir ≠ .inval
  link : p.trimList = if t.has blkTcDiscard then .null else .self

lemma traceAddFile_last : (s.traceAddFile o device).lastMaj = fmajor device ∧
      (s.traceAddFile o device).lastMin = fminor device := by
  unfold traceAddFile
  cases s.addedPath o device with
  | none => exact ⟨rfl, rfl⟩
  | some dev => exact ⟨rfl, rfl⟩

lemma handleTrace_queues (ttime : BitVec 64) (hq : t.isQueue = true) (h : t.has blkTcPc = false)
    (hn : t.has blkTcNotify = false) : ∃ p, QueuesPiece o t s (s.handleTrace o t ttime) p := by
  obtain ⟨hmaj, hmin⟩ := traceAddFile_last (o := o) (s := s) t.device
  rw [handleTrace, if_neg (by simp [hq]), if_neg (by simp [h]), if_neg (by simp [hn])]
  split_ifs with hdsc
  · refine ⟨_, ⟨rfl, rfl, hmaj, hmin, rfl, ?_, ?_⟩⟩
    · simp
    · simp [hdsc]
  · refine ⟨_, ⟨rfl, rfl, hmaj, hmin, rfl, ?_, ?_⟩⟩
    · cases t.has blkTcWrite <;> simp
    · simp [hdsc, LogPiece.initIpo]

lemma traceRecord_queues (h : t.Queued o) : ∃ p, QueuesPiece o t s (s.traceRecord o t) p := by
  obtain ⟨hq, hpc, hn, hsk⟩ := h
  rw [traceRecord, if_neg (by simp [hn]), if_neg (by simpa using hsk)]
  obtain ⟨p, hp⟩ := handleTrace_queues (o := o) (s := s) (s.recordDelay o t) hq hpc hn
  exact ⟨p, ⟨hp.list, hp.table, hp.maj, hp.min, hp.fileno, hp.io, hp.link⟩⟩

def openEvents (o : TraceOpts) (s : TraceJob) (device : BitVec 32) : List LogPiece :=
  match s.addedPath o device with
  | none => []
  | some dev =>
    [{ LogPiece.initIpo with
      ddir := .inval, fileno := (s.table.addFileExclusive dev).1, aux := .action .openFile }]

lemma traceAddFile_list :
    (s.traceAddFile o device).ioLogList = s.ioLogList ++ openEvents o s device := by
  unfold traceAddFile openEvents
  cases s.addedPath o device with
  | none => simp
  | some dev => rfl

lemma traceAddFile_table :
    (s.traceAddFile o device).table =
      match s.addedPath o device with
      | none => s.table
      | some dev => (s.table.addFileExclusive dev).2 := by
  unfold traceAddFile
  cases s.addedPath o device with
  | none => rfl
  | some dev => rfl

lemma openEvents_link : Replay.LinksOk (openEvents o s device) := by
  intro p hp
  unfold openEvents at hp
  split at hp
  · cases hp
  · rw [mem_singleton.1 hp]
    rfl

lemma linksOk_loadBlktrace_iff (records : List BlkIoTrace) :
    Replay.LinksOk (s.loadBlktrace o records).ioLogList ↔
      Replay.LinksOk s.ioLogList ∧ ∀ t ∈ records, t.Queued o → t.has blkTcDiscard = false := by
  induction records generalizing s with
  | nil => simp [loadBlktrace]
  | cons t rest ih =>
    have hld : s.loadBlktrace o (t :: rest) = (s.traceRecord o t).loadBlktrace o rest := rfl
    have hst : Replay.LinksOk (s.traceRecord o t).ioLogList ↔
        Replay.LinksOk s.ioLogList ∧ (t.Queued o → t.has blkTcDiscard = false) := by
      by_cases hque : t.Queued o
      · obtain ⟨p, hp⟩ := traceRecord_queues (s := s) hque
        have hevn := openEvents_link (o := o) (s := s) t.device
        rw [hp.list, traceAddFile_list]
        simp only [Replay.LinksOk, forall_mem_append, forall_mem_singleton] at hevn ⊢
        rw [hp.link]
        cases hd : t.has blkTcDiscard with
        | false => simpa [hque] using fun _ => hevn
        | true => simp [hque]
      · rw [(traceRecord_of_not_queued hque).list]
        simp [hque]
    rw [hld, ih, hst, forall_mem_cons]
    tauto

/-- Every queued piece can be consumed: the links are in order, and no replay of the list follows a
    NULL link or changes `trim_entries`. -/
def Consumable (s : TraceJob) : Prop :=
  Replay.LinksOk s.ioLogList ∧
    ∀ r : Replay, ∀ calls, r.replay calls s.ioLogList ≠ .error .nullLink ∧
      ∀ us r', r.replay calls s.ioLogList = .ok (us, r') → r'.trimEntries = r.trimEntries

lemma consumable_iff : s.Consumable ↔ Replay.LinksOk s.ioLogList := by
  constructor
  · intro h
    exact h.1
  · intro h
    refine ⟨h, ?_⟩
    intro r calls
    have havd := avoids_replay_nullLink (s := r) h calls
    refine ⟨havd.1, ?_⟩
    intro us r' hr'
    exact havd.2 _ hr'

/-- **Queued pieces can be consumed exactly if no discard is queued**: `handle_trace_discard` clears
    the initialised trim link of its piece. -/
theorem traceConsumable_iff (o : TraceOpts) (table : FileTable) (lastMaj lastMin : Nat)
    (records : List BlkIoTrace) :
    ((start table lastMaj lastMin).loadBlktrace o records).Consumable ↔
      ∀ t ∈ records, t.Queued o → t.has blkTcDiscard = false := by
  rw [consumable_iff, linksOk_loadBlktrace_iff, and_iff_right]
  intro p hp
  cases hp

theorem trace_discard_null_link :
    ¬ ((start oneFile 0 0).loadBlktrace devOpts
      [{ queueRead 0x800000 with action := 0x20120001 }]).Consumable := by
  rw [consumable_iff, linksOk_loadBlktrace_iff]
  rintro ⟨-, h⟩
  exact absurd (h _ (.head _) (by decide)) (by decide)

lemma addFileExclusive_zero {table : FileTable} (dev : FileName) (h : table.filesIndex ≠ 0) :
    (table.addFileExclusive dev).2.files 0 = table.files 0 ∧
      (table.addFileExclusive dev).2.filesIndex ≠ 0 := by
  unfold addFileExclusive
  split
  · exact ⟨rfl, h⟩
  · refine ⟨?_, Nat.succ_ne_zero _⟩
    rw [addFile_files, if_neg h.symm]

lemma traceAddFile_zero (h : s.table.filesIndex ≠ 0) :
    (s.traceAddFile o device).table.files 0 = s.table.files 0 ∧
      (s.traceAddFile o device).table.filesIndex ≠ 0 := by
  rw [traceAddFile_table]
  cases s.addedPath o device with
  | none => exact ⟨rfl, h⟩
  | some dev => exact addFileExclusive_zero dev h

lemma loadBlktrace_zero (records : List BlkIoTrace) (h : s.table.filesIndex ≠ 0) :
    (s.loadBlktrace o records).table.files 0 = s.table.files 0 := by
  induction records generalizing s with
  | nil => rfl
  | cons t rest ih =>
    have hld : s.loadBlktrace o (t :: rest) = (s.traceRecord o t).loadBlktrace o rest := rfl
    by_cases hque : t.Queued o
    · obtain ⟨p, hp⟩ := traceRecord_queues (s := s) hque
      obtain ⟨hfl, hix⟩ := traceAddFile_zero (o := o) t.device h
      rw [hld, ih (by rw [hp.table]; exact hix), hp.table, hfl]
    · have heq := traceRecord_of_not_queued (s := s) hque
      rw [hld, ih (by rw [heq.table]; exact h), heq.table]

def firstSwitch (o : TraceOpts) (maj min : Nat) (records : List BlkIoTrace) : Option BlkIoTrace :=
  records.find? fun t =>
    decide (t.Queued o ∧ ¬ (maj = fmajor t.device ∧ min = fminor t.device))

/-- The name of the job's first file: its own one, or the path of the first device that differs from
    the one remembered from before. -/
def firstFile (o : TraceOpts) (path : Nat → Nat → FileName) (table : FileTable) (maj min : Nat)
    (records : List BlkIoTrace) : Option FileName :=
  if table.filesIndex = 0 then
    (firstSwitch o maj min records).map fun t =>
      table.fullName (path (fmajor t.device) (fminor t.device))
  else (table.files 0).map LogFile.fileName

variable (path : Nat → Nat → FileName)

lemma loadBlktrace_firstFile
    (hpt : ∀ maj min, o.lookupDevice maj min = some (path maj min)) (records : List BlkIoTrace)
    (h : s.table.filesIndex = 0 → s.table.files 0 = none) :
    ((s.loadBlktrace o records).table.files 0).map LogFile.fileName =
      firstFile o path s.table s.lastMaj s.lastMin records := by
  by_cases hix : s.table.filesIndex = 0
  · rw [firstFile, if_pos hix]
    induction records generalizing s with
    | nil => simp [loadBlktrace, h hix, firstSwitch]
    | cons t rest ih =>
      have hld : s.loadBlktrace o (t :: rest) = (s.traceRecord o t).loadBlktrace o rest := rfl
      rw [hld]
      by_cases hque : t.Queued o
      · obtain ⟨p, hp⟩ := traceRecord_queues (s := s) hque
        by_cases hla : s.lastMaj = fmajor t.device ∧ s.lastMin = fminor t.device
        · -- the remembered device: nothing is added
          have had : s.addedPath o t.device = none := if_pos hla
          have htb : (s.traceRecord o t).table = s.table := by
            rw [hp.table, traceAddFile_table, had]
          have hrs := ih (s := s.traceRecord o t) (by rw [htb]; exact h) (by rw [htb]; exact hix)
          rw [hrs, htb, hp.maj, hp.min, ← hla.1, ← hla.2]
          rw [firstSwitch, firstSwitch, find?_cons_of_neg]
          simp [hla]
        · -- the first new device: its path becomes file 0 and stays there
          have hno : ∀ q, s.table.forEachFile q = none := fun q => if_pos hix
          have had : s.addedPath o t.device = some (path (fmajor t.device) (fminor t.device)) := by
            rw [addedPath, if_neg hla, hno]
            exact hpt _ _
          have htb : (s.traceRecord o t).table =
              (s.table.addFile (path (fmajor t.device) (fminor t.device))).2 := by
            rw [hp.table, traceAddFile_table, had]
            simp [addFileExclusive, hno]
          rw [loadBlktrace_zero rest (by rw [htb]; exact Nat.succ_ne_zero _), htb,
            addFile_files, if_pos hix.symm]
          have hfr : firstSwitch o s.lastMaj s.lastMin (t :: rest) = some t :=
            find?_cons_of_pos (decide_eq_true ⟨hque, hla⟩)
          rw [hfr]
          rfl
      · have heq := traceRecord_of_not_queued (s := s) hque
        have hrs := ih (s := s.traceRecord o t) (by rw [heq.table]; exact h)
          (by rw [heq.table]; exact hix)
        rw [hrs, heq.table, heq.maj, heq.min]
        rw [firstSwitch, firstSwitch, find?_cons_of_neg]
        simp [hque]
  · rw [firstFile, if_neg hix, loadBlktrace_zero records hix]

def newPieces (o : TraceOpts) (s : TraceJob) (t : BlkIoTrace) : List LogPiece :=
  (s.traceRecord o t).ioLogList.drop s.ioLogList.length

/-- Every I/O of a trace is replayed on the file of its record's device: the number in its piece is
    that of a file with the path of the device. -/
def OnOwnDevice (o : TraceOpts) (path : Nat → Nat → FileName) (s : TraceJob)
    (records : List BlkIoTrace) : Prop :=
  ∀ pre t post, records = pre ++ t :: post → ∀ p ∈ newPieces o (s.loadBlktrace o pre) t,
    p.ddir ≠ .inval →
      ((s.loadBlktrace o records).table.fileAt p.fileno).map LogFile.fileName =
        some (path (fmajor t.device) (fminor t.device))

lemma newPieces_of_queued {p : LogPiece} (h : QueuesPiece o t s (s.traceRecord o t) p) :
    newPieces o s t = openEvents o s t.device ++ [p] := by
  rw [newPieces, h.list, traceAddFile_list, append_assoc, drop_left]

lemma openEvents_inval : ∀ p ∈ openEvents o s device, p.ddir = .inval := by
  intro p hp
  unfold openEvents at hp
  split at hp
  · cases hp
  · rw [mem_singleton.1 hp]

lemma onOwnDevice_iff_zero (records : List BlkIoTrace) :
    OnOwnDevice o path s records ↔ ∀ t ∈ records, t.Queued o →
        ((s.loadBlktrace o records).table.files 0).map LogFile.fileName =
          some (path (fmajor t.device) (fminor t.device)) := by
  constructor
  · intro h t ht hque
    obtain ⟨pre, post, rfl⟩ := append_of_mem ht
    obtain ⟨p, hp⟩ := traceRecord_queues (s := s.loadBlktrace o pre) hque
    have hpc := h pre t post rfl p (by rw [newPieces_of_queued hp]; simp) hp.io
    rw [hp.fileno] at hpc
    exact hpc
  · intro h pre t post heq p hp hio
    by_cases hque : t.Queued o
    · obtain ⟨q, hq⟩ := traceRecord_queues (s := s.loadBlktrace o pre) hque
      rw [newPieces_of_queued hq] at hp
      rcases mem_append.1 hp with hev | hla
      · exact absurd (openEvents_inval t.device p hev) hio
      · obtain rfl := mem_singleton.1 hla
        rw [hq.fileno]
        exact h t (heq ▸ by simp) hque
    · rw [newPieces, (traceRecord_of_not_queued hque).list, drop_length] at hp
      cases hp

abbrev FilledTable := { table : FileTable // table.Filled }

/-- **I/Os are replayed on their devices exactly if all of them are of one device, the one of the
    job's first file**: no piece is given its file's number. -/
theorem traceOnOwnDevice_iff (o : TraceOpts) (path : Nat → Nat → FileName)
    (table : FilledTable) (lastMaj lastMin : Nat) (records : List BlkIoTrace) :
    OnOwnDevice { o with lookupDevice := fun maj min => some (path maj min) } path
        (start table.val lastMaj lastMin) records ↔
      ∀ t ∈ records, t.Queued o →
        firstFile o path table.val lastMaj lastMin records =
          some (path (fmajor t.device) (fminor t.device)) := by
  rw [onOwnDevice_iff_zero, loadBlktrace_firstFile path (fun _ _ => rfl) records]
  · rfl
  · intro hix
    exact table.property 0 (by rw [← hix]; exact le_rfl)

/-- Of two devices, the reads of the second are replayed on the first. -/
theorem trace_on_wrong_device :
    ¬ OnOwnDevice devOpts devPath (start oneFile 0 0) [queueRead 0x800000, queueRead 0x800010] := by
  rw [onOwnDevice_iff_zero]
  intro h
  have hscn := h (queueRead 0x800010) (by simp) (by decide)
  cases hscn

/-- If the record makes `trace_add_file` add the path of a file that `for_each_file` meets, no open
    event for that file is queued yet. -/
def AddsFresh (o : TraceOpts) (s : TraceJob) (t : BlkIoTrace) : Prop :=
  ∀ dev i, t.Queued o → s.addedPath o t.device = some dev →
    s.table.forEachFile (fun f => decide (f.fileName = dev)) = some i →
      i ∉ Replay.openNos s.ioLogList

structure OpensFiles (s : TraceJob) : Prop where
  filled : s.table.Filled
  only : Replay.OnlyOpens s.table s.ioLogList

lemma OpensFiles.lt {i : Nat} (h : OpensFiles s) (hi : i ∈ openNos s.ioLogList) :
    i < s.table.filesIndex := by
  obtain ⟨p, hp, hopn⟩ := mem_filterMap.1 hi
  unfold openNo at hopn
  split_ifs at hopn with hIs
  cases hopn
  have hfl := (h.only p hp hIs.1).2
  by_contra hge
  unfold fileAt at hfl
  split_ifs at hfl
  · rw [h.filled _ (by omega)] at hfl
    cases hfl
  · cases hfl

lemma fileAt_addFile {table : FileTable} (dev : FileName) {fileno : Int}
    (h : (table.fileAt fileno).isSome = true) : ((table.addFile dev).2.fileAt fileno).isSome = true := by
  unfold fileAt at h ⊢
  split_ifs at h ⊢
  · rw [addFile_files]
    split_ifs
    · rfl
    · exact h
  · exact h

lemma addFileExclusive_cases (table : FileTable) (dev : FileName) :
    (∃ i, table.forEachFile (fun f => decide (f.fileName = dev)) = some i ∧
        table.addFileExclusive dev = (i, table)) ∨
      (table.forEachFile (fun f => decide (f.fileName = dev)) = none ∧
        table.addFileExclusive dev = (table.filesIndex, (table.addFile dev).2)) := by
  unfold addFileExclusive
  cases h : table.forEachFile (fun f => decide (f.fileName = dev)) with
  | some i => exact .inl ⟨i, rfl, rfl⟩
  | none => exact .inr ⟨rfl, rfl⟩

lemma OpensFiles.traceAddFile (h : OpensFiles s) (device : BitVec 32) :
    OpensFiles (s.traceAddFile o device) := by
  refine ⟨?_, ?_⟩
  · rw [traceAddFile_table]
    cases had : s.addedPath o device with
    | none => exact h.filled
    | some dev =>
      rcases addFileExclusive_cases s.table dev with ⟨i, -, heq⟩ | ⟨-, heq⟩
      · simpa only [heq] using h.filled
      · simpa only [heq] using h.filled.addFile dev
  · rw [traceAddFile_table, traceAddFile_list, openEvents]
    cases had : s.addedPath o device with
    | none => simpa using h.only
    | some dev =>
      simp only
      rcases addFileExclusive_cases s.table dev with ⟨i, hfn, heq⟩ | ⟨-, heq⟩
      · rw [heq]
        intro p hp hin
        rcases mem_append.1 hp with hold | hnew
        · exact h.only p hold hin
        · obtain rfl := mem_singleton.1 hnew
          obtain ⟨f, hf, -⟩ := forEachFile_some hfn
          exact ⟨⟨rfl, rfl⟩, by simp [fileAt, hf]⟩
      · rw [heq]
        intro p hp hin
        rcases mem_append.1 hp with hold | hnew
        · obtain ⟨hopn, hfl⟩ := h.only p hold hin
          exact ⟨hopn, fileAt_addFile dev hfl⟩
        · obtain rfl := mem_singleton.1 hnew
          refine ⟨⟨rfl, rfl⟩, ?_⟩
          simp [fileAt, addFile_files]

lemma openNos_append (xs ys : List LogPiece) :
    openNos (xs ++ ys) = openNos xs ++ openNos ys := filterMap_append

lemma OpensFiles.nodup_traceAddFile (hs : OpensFiles s) (h : t.Queued o) :
    (openNos (s.traceAddFile o t.device).ioLogList).Nodup ↔
      (openNos s.ioLogList).Nodup ∧ AddsFresh o s t := by
  rw [traceAddFile_list, openNos_append, openEvents]
  cases had : s.addedPath o t.device with
  | none =>
    have hfr : AddsFresh o s t := by
      intro dev i _ hdev
      rw [had] at hdev
      cases hdev
    simp [hfr, openNos]
  | some dev =>
    have hnew : openNos [{ LogPiece.initIpo with
        ddir := .inval, fileno := ((s.table.addFileExclusive dev).1 : Int)
        aux := .action .openFile }] = [(s.table.addFileExclusive dev).1] := by
      simp [openNos, openNo, Replay.IsOpen, DelayOrAction.fileAction]
    rw [hnew, nodup_append, and_congr_right_iff]
    intro _
    rcases addFileExclusive_cases s.table dev with ⟨i, hfn, heq⟩ | ⟨hno, heq⟩
    · rw [heq]
      constructor
      · rintro ⟨-, hds⟩ dev' i' _ hdv' hfn' hmem
        rw [had] at hdv'
        cases hdv'
        rw [hfn] at hfn'
        cases hfn'
        exact hds i hmem i (by simp) rfl
      · intro hfr
        refine ⟨by simp, ?_⟩
        intro a ha b hb
        obtain rfl := mem_singleton.1 hb
        rintro rfl
        exact hfr dev a h had hfn ha
    · -- a new file has a new number
      rw [heq]
      constructor
      · rintro - dev' i' _ hdv' hfn'
        rw [had] at hdv'
        cases hdv'
        rw [hno] at hfn'
        cases hfn'
      · intro _
        refine ⟨by simp, ?_⟩
        intro a ha b hb
        obtain rfl := mem_singleton.1 hb
        exact ne_of_lt (hs.lt ha)

lemma OpensFiles.traceRecord (hs : OpensFiles s) (t : BlkIoTrace) :
    OpensFiles (s.traceRecord o t) ∧ ((openNos (s.traceRecord o t).ioLogList).Nodup ↔
        (openNos s.ioLogList).Nodup ∧ AddsFresh o s t) := by
  by_cases hque : t.Queued o
  · obtain ⟨p, hp⟩ := traceRecord_queues (s := s) hque
    have hadd := hs.traceAddFile (o := o) t.device
    have hpc : openNos [p] = [] := by
      have hno : openNo p = none := if_neg fun h => hp.io h.1
      rw [openNos, filterMap_cons_none hno]
      rfl
    refine ⟨⟨?_, ?_⟩, ?_⟩
    · rw [hp.table]
      exact hadd.filled
    · rw [hp.table, hp.list]
      intro q hq hin
      rcases mem_append.1 hq with hold | hnew
      · exact hadd.only q hold hin
      · exact absurd (mem_singleton.1 hnew ▸ hin) hp.io
    · rw [hp.list, openNos_append, hpc, append_nil]
      exact hs.nodup_traceAddFile hque
  · have heq := traceRecord_of_not_queued (s := s) hque
    refine ⟨⟨?_, ?_⟩, ?_⟩
    · rw [heq.table]
      exact hs.filled
    · rw [heq.table, heq.list]
      exact hs.only
    · rw [heq.list]
      have hfr : AddsFresh o s t := fun _ _ hq => absurd hq hque
      simp [hfr]

def StreamFresh (o : TraceOpts) (s : TraceJob) (records : List BlkIoTrace) : Prop :=
  ∀ pre t post, records = pre ++ t :: post → AddsFresh o (s.loadBlktrace o pre) t

lemma streamFresh_cons (t : BlkIoTrace) (rest : List BlkIoTrace) :
    StreamFresh o s (t :: rest) ↔ AddsFresh o s t ∧ StreamFresh o (s.traceRecord o t) rest := by
  constructor
  · intro h
    refine ⟨h [] t rest rfl, ?_⟩
    intro pre t' post heq
    exact h (t :: pre) t' post (by rw [heq]; rfl)
  · rintro ⟨hfr, hrs⟩ pre t' post heq
    cases pre with
    | nil =>
      obtain ⟨rfl, -⟩ := cons.inj heq
      exact hfr
    | cons a pre =>
      obtain ⟨rfl, htl⟩ := cons.inj heq
      exact hrs pre t' post htl

lemma OpensFiles.loadBlktrace (h : OpensFiles s) (records : List BlkIoTrace) :
    OpensFiles (s.loadBlktrace o records) ∧
      ((openNos (s.loadBlktrace o records).ioLogList).Nodup ↔
        (openNos s.ioLogList).Nodup ∧ StreamFresh o s records) := by
  induction records generalizing s with
  | nil =>
    refine ⟨h, ?_⟩
    have hfr : StreamFresh o s [] := by
      intro pre t post heq
      simp at heq
    simp [TraceJob.loadBlktrace, hfr]
  | cons t rest ih =>
    obtain ⟨hst, hiff⟩ := h.traceRecord (o := o) t
    obtain ⟨hld, hnd⟩ := ih hst
    refine ⟨hld, ?_⟩
    rw [show s.loadBlktrace o (t :: rest) = (s.traceRecord o t).loadBlktrace o rest from rfl, hnd,
      hiff, streamFresh_cons, and_assoc]

lemma opensFresh_start_iff (table : FileTable) (n : Nat) (list : List LogPiece) :
    Replay.OpensFresh (Replay.start table n) list ↔ (Replay.openNos list).Nodup :=
  ⟨fun h => h.nodup, fun h => ⟨h, fun _ _ => rfl⟩⟩

/-- Replaying the queued list never asks to open an open file: neither in `ipo_special` alone nor in
    the calls that `read_iolog_get` makes. -/
def OpensOnce (s : TraceJob) (trimEntries : Nat) : Prop :=
  (Replay.start s.table trimEntries).replaySpecials s.ioLogList ≠ .error .alreadyOpen ∧
    ∀ calls, (Replay.start s.table trimEntries).replay calls s.ioLogList ≠ .error .alreadyOpen

lemma OpensFiles.opensOnce_iff (hs : OpensFiles s) (trimEntries : Nat) :
    s.OpensOnce trimEntries ↔ (Replay.openNos s.ioLogList).Nodup := by
  have hiff := Replay.replaySpecials_alreadyOpen_iff (s := Replay.start s.table trimEntries) hs.only
  rw [opensFresh_start_iff] at hiff
  constructor
  · intro h
    exact hiff.1 h.1
  · intro h
    refine ⟨hiff.2 h, ?_⟩
    intro calls
    exact (Replay.avoids_replay_alreadyOpen ((opensFresh_start_iff _ _ _).2 h) calls).1

lemma opensFiles_start (table : FilledTable) (lastMaj lastMin : Nat) :
    OpensFiles (start table.val lastMaj lastMin) := by
  refine ⟨table.property, ?_⟩
  intro p hp
  cases hp

/-- **A replayed trace opens no open file exactly if no device comes back whose path is that of a
    file with an open event already.** -/
theorem traceOpensOnce_iff (o : TraceOpts) (table : FilledTable) (lastMaj lastMin trimEntries : Nat)
    (records : List BlkIoTrace) :
    ((start table.val lastMaj lastMin).loadBlktrace o records).OpensOnce trimEntries ↔
      StreamFresh o (start table.val lastMaj lastMin) records := by
  obtain ⟨hld, hnd⟩ := (opensFiles_start table lastMaj lastMin).loadBlktrace (o := o) records
  rw [hld.opensOnce_iff, hnd, and_iff_right]
  exact nodup_nil

theorem trace_opens_twice :
    ¬ ((start oneFile 0 0).loadBlktrace devOpts
      [queueRead 0x800000, queueRead 0x800010, queueRead 0x800000]).OpensOnce 0 := by
  intro h
  exact h.1 rfl

end TraceJob

end FioSsd
