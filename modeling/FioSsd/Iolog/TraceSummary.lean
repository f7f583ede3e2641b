import FioSsd.Iolog.Blktrace
import FioSsd.Iolog.Effects

/-! # Direction and block sizes of a trace

Behind its loop `load_blktrace` sets the direction of the job and the largest block sizes. The test
for a trace of reads only asks for `ios[DDIR_READ]` twice, so it never holds, and such a trace is
taken as mixed. -/

namespace FioSsd

open Function List TraceJob LogPiece

variable {bytes : BitVec 32} {d : Ddir}

structure TraceDirs where
  tdDdir : TdDdir
  maxBs : Fin 2 → BitVec 32
  odirect : Bool

def TraceJob.setTraceDirs (s : TraceJob) (p : TraceDirs) : TraceDirs × Nat :=
  if s.ios 0 = 0 ∧ s.ios 1 = 0 then (p, 1)
  else if s.ios 0 ≠ 0 ∧ s.ios 0 = 0 then
    ({ tdDdir := .read, maxBs := update p.maxBs 0 (s.rwBs 0), odirect := true }, 0)
  else if s.ios 0 = 0 ∧ s.ios 1 ≠ 0 then
    ({ tdDdir := .write, maxBs := update p.maxBs 1 (s.rwBs 1), odirect := true }, 0)
  else ({ tdDdir := .rw, maxBs := s.rwBs, odirect := true }, 0)

structure TraceFile where
  records : List BlkIoTrace
  short : records.length < 2 ^ 64

def BlkIoTrace.ddir (t : BlkIoTrace) : Ddir :=
  if t.has blkTcDiscard then .trim else if t.has blkTcWrite then .write else .read

lemma BlkIoTrace.ddir_cases (t : BlkIoTrace) :
    t.ddir = .read ∨ t.ddir = .write ∨ t.ddir = .trim := by
  unfold BlkIoTrace.ddir
  split_ifs <;> simp

def tracedIo (o : TraceOpts) (t : BlkIoTrace) : Option (Ddir × Nat) :=
  if t.Queued o then some (t.ddir, t.bytes.toNat) else none

def LogPiece.io (p : LogPiece) : Option (Ddir × Nat) :=
  if p.ddir = .inval then none else some (p.ddir, p.len.toNat)

def iosIndex : Ddir → Fin 2
  | .read => 0
  | _ => 1

def lengthsOf (d : Ddir) (ios : List (Ddir × Nat)) : List Nat :=
  ios.filterMap fun io => if io.1 = d then some io.2 else none

namespace TraceJob

variable {o : TraceOpts} {s s' : TraceJob} {t : BlkIoTrace}

structure Summed (queued : List (Ddir × Nat)) (s : TraceJob) : Prop where
  list : s.ioLogList.filterMap LogPiece.io = queued
  ios : ∀ i, s.ios i = BitVec.ofNat 64 (queued.countP fun io => iosIndex io.1 = i)
  readBs : (s.rwBs 0).toNat = (lengthsOf .read queued).foldl max 0
  writeBs : (s.rwBs 1).toNat = (lengthsOf .write queued).foldl max 0

/-- What a queued I/O does to the counters and the list; a discard has no part in `rw_bs`. -/
structure Counts (d : Ddir) (bytes : BitVec 32) (s s' : TraceJob) : Prop where
  list : s'.ioLogList.filterMap LogPiece.io =
    s.ioLogList.filterMap LogPiece.io ++ [(d, bytes.toNat)]
  ios : s'.ios = update s.ios (iosIndex d) (s.ios (iosIndex d) + 1)
  rwBs : s'.rwBs =
    if d ≠ .trim ∧ (s.rwBs (iosIndex d)).toNat < bytes.toNat then
      update s.rwBs (iosIndex d) bytes
    else s.rwBs

lemma traceAddFile_counters (device : BitVec 32) :
    (s.traceAddFile o device).ios = s.ios ∧ (s.traceAddFile o device).rwBs = s.rwBs := by
  unfold traceAddFile
  cases s.addedPath o device with
  | none => exact ⟨rfl, rfl⟩
  | some dev => exact ⟨rfl, rfl⟩

lemma traceAddFile_io (device : BitVec 32) :
    (s.traceAddFile o device).ioLogList.filterMap io =
      s.ioLogList.filterMap io := by
  rw [traceAddFile_list, filterMap_append]
  unfold openEvents
  cases s.addedPath o device with
  | none => simp
  | some dev => simp [io]

lemma piece_io {p : LogPiece} (hd : d ≠ .inval) (h : p.ddir = d) (hlen : p.len = bytes.setWidth 64)
    : p.io = some (d, bytes.toNat) := by
  have hby : (bytes.setWidth 64).toNat = bytes.toNat := by
    have := bytes.isLt
    rw [BitVec.toNat_setWidth]
    omega
  rw [io, h, if_neg hd, hlen, hby]

variable (ttime : BitVec 64)

lemma handleTraceDiscard_counts :
    Counts .trim t.bytes s (s.handleTraceDiscard o t ttime) := by
  obtain ⟨hios, hbs⟩ := traceAddFile_counters (o := o) (s := s) t.device
  refine ⟨?_, ?_, ?_⟩
  · change ((s.traceAddFile o t.device).ioLogList ++ [_]).filterMap io = _
    rw [filterMap_append, traceAddFile_io, filterMap_cons_some (piece_io (by simp) rfl rfl)]
    rfl
  · rw [← hios]
    rfl
  · rw [if_neg (by simp), ← hbs]
    rfl

lemma handleTraceFs_counts :
    Counts (if t.has blkTcWrite then .write else .read) t.bytes s (s.handleTraceFs o t ttime) := by
  obtain ⟨hios, hbs⟩ := traceAddFile_counters (o := o) (s := s) t.device
  have hix : iosIndex (if t.has blkTcWrite then .write else .read) =
      if t.has blkTcWrite then 1 else 0 := by
    split_ifs <;> rfl
  refine ⟨?_, ?_, ?_⟩
  · change ((s.traceAddFile o t.device).ioLogList ++ [_]).filterMap io = _
    rw [filterMap_append, traceAddFile_io,
      filterMap_cons_some (piece_io (by split_ifs <;> simp) rfl rfl)]
    rfl
  · rw [hix, ← hios]
    rfl
  · have htr : (if t.has blkTcWrite then Ddir.write else .read) ≠ .trim := by
      split_ifs <;> decide
    simp only [htr, ne_eq, not_false_eq_true, true_and]
    rw [hix, ← hbs]
    rfl

lemma handleTrace_counts (hqu : t.isQueue) (hpc : t.has blkTcPc = false)
    (h : t.has blkTcNotify = false) :
    Counts t.ddir t.bytes s (s.handleTrace o t ttime) := by
  have hcd : s.handleTrace o t ttime =
      if t.has blkTcDiscard then s.handleTraceDiscard o t ttime else s.handleTraceFs o t ttime := by
    rw [handleTrace, if_neg (by simp [hqu]), if_neg (by simp [hpc]), if_neg (by simp [h])]
  rw [hcd, BlkIoTrace.ddir]
  by_cases hdsc : t.has blkTcDiscard
  · rw [if_pos hdsc, if_pos hdsc]
    exact handleTraceDiscard_counts ttime
  · rw [if_neg hdsc, if_neg hdsc]
    exact handleTraceFs_counts ttime

lemma foldl_max_lengthsOf_append (d : Ddir) (queued : List (Ddir × Nat)) (io : Ddir × Nat) :
    (lengthsOf d (queued ++ [io])).foldl max 0 =
      if io.1 = d then max ((lengthsOf d queued).foldl max 0) io.2
      else (lengthsOf d queued).foldl max 0 := by
  rw [lengthsOf, filterMap_append, ← lengthsOf]
  split_ifs with hd
  · simp [hd, foldl_append]
  · simp [hd]

lemma Counts.rwBs_toNat {d' : Ddir} (hc : Counts d bytes s s') (h : d' = .read ∨ d' = .write)
    (hd : d = .read ∨ d = .write ∨ d = .trim) :
    (s'.rwBs (iosIndex d')).toNat =
      if d = d' then max (s.rwBs (iosIndex d')).toNat bytes.toNat
      else (s.rwBs (iosIndex d')).toNat := by
  rw [hc.rwBs]
  by_cases heq : d = d'
  · have htr : d ≠ .trim := by
      rintro rfl
      rcases h with rfl | rfl <;> cases heq
    subst heq
    rw [if_pos rfl]
    by_cases hlt : (s.rwBs (iosIndex d)).toNat < bytes.toNat
    · rw [if_pos ⟨htr, hlt⟩, update_self, max_eq_right hlt.le]
    · rw [if_neg (by simp [hlt]), max_eq_left (Nat.le_of_not_lt hlt)]
  · rw [if_neg heq]
    split_ifs with hlt
    · have hix : iosIndex d' ≠ iosIndex d := by
        rcases h with rfl | rfl <;> rcases hd with rfl | rfl | rfl <;> simp_all [iosIndex]
      rw [update_of_ne hix]
    · rfl

section

variable {queued : List (Ddir × Nat)}

lemma Summed.counts
    (h : Summed queued s) (hd : d = .read ∨ d = .write ∨ d = .trim) (hc : Counts d bytes s s') :
    Summed (queued ++ [(d, bytes.toNat)]) s' := by
  refine ⟨?_, ?_, ?_, ?_⟩
  · rw [hc.list, h.list]
  · intro i
    rw [hc.ios, countP_append, countP_singleton]
    by_cases hi : iosIndex d = i
    · rw [if_pos (by simpa using hi), ← hi, update_self, h.ios, BitVec.ofNat_add]
      rfl
    · rw [if_neg (by simpa using hi), update_of_ne (Ne.symm hi), h.ios, add_zero]
  · rw [foldl_max_lengthsOf_append, ← h.readBs]
    exact hc.rwBs_toNat (.inl rfl) hd
  · rw [foldl_max_lengthsOf_append, ← h.writeBs]
    exact hc.rwBs_toNat (.inr rfl) hd

lemma Summed.congr (hs : Summed queued s) (h : s'.ioLogList = s.ioLogList) (hios : s'.ios = s.ios)
    (hbs : s'.rwBs = s.rwBs) :
    Summed queued s' :=
  ⟨h ▸ hs.list, hios ▸ hs.ios, hbs ▸ hs.readBs, hbs ▸ hs.writeBs⟩

lemma Summed.traceRecord (h : Summed queued s) :
    Summed (queued ++ (tracedIo o t).toList) (s.traceRecord o t) := by
  unfold tracedIo
  by_cases hque : t.Queued o
  · rw [if_pos hque]
    obtain ⟨hqu, hpc, hntf, hsk⟩ := hque
    have hc := handleTrace_counts (o := o) (s := s) (s.recordDelay o t) hqu hpc hntf
    rw [TraceJob.traceRecord, if_neg (by simp [hntf]), if_neg (by simpa using hsk)]
    exact (h.counts t.ddir_cases hc).congr rfl rfl rfl
  · rw [if_neg hque, Option.toList_none, append_nil]
    unfold TraceJob.traceRecord
    by_cases hntf : t.has blkTcNotify
    · rw [if_pos hntf, handleTrace_of_not_queue 0 (by simp [hntf])]
      exact h
    · rw [if_neg hntf]
      by_cases hsk : (t.has blkTcWrite && o.readOnly)
      · rw [if_pos hsk]
        exact h.congr rfl rfl rfl
      · rw [if_neg hsk, handleTrace_of_not_queue]
        · exact h.congr rfl rfl rfl
        · rintro ⟨hq, hpc, hn⟩
          exact hque ⟨hq, hpc, hn, by simpa using hsk⟩

lemma Summed.loadBlktrace (h : Summed queued s) (records : List BlkIoTrace) :
    Summed (queued ++ records.filterMap (tracedIo o)) (s.loadBlktrace o records) := by
  induction records generalizing queued s with
  | nil => simpa [loadBlktrace] using h
  | cons t rest ih =>
    have hrs := ih (h.traceRecord (o := o) (t := t))
    rw [append_assoc] at hrs
    have hio : (tracedIo o t).toList ++ rest.filterMap (tracedIo o) =
        (t :: rest).filterMap (tracedIo o) := by
      cases htrc : tracedIo o t with
      | none => simp [htrc]
      | some io => simp [htrc]
    rwa [hio] at hrs

end

lemma summed_start (table : FileTable) (lastMaj lastMin : Nat) :
    Summed [] (start table lastMaj lastMin) :=
  ⟨rfl, fun _ => rfl, rfl, rfl⟩

end TraceJob

namespace TraceJob

variable {s : TraceJob} {p : TraceDirs} {queued : List (Ddir × Nat)}

lemma setTraceDirs_none (hread : s.ios 0 = 0) (h : s.ios 1 = 0) : (s.setTraceDirs p).2 = 1 := by
  rw [setTraceDirs, if_pos ⟨hread, h⟩]

lemma setTraceDirs_write (hread : s.ios 0 = 0) (hwr : s.ios 1 ≠ 0) : s.setTraceDirs p =
      ({ tdDdir := .write, maxBs := update p.maxBs 1 (s.rwBs 1), odirect := true }, 0) := by
  rw [setTraceDirs, if_neg (fun h => hwr h.2), if_neg (fun h => h.1 hread), if_pos ⟨hread, hwr⟩]

lemma setTraceDirs_rw (hread : s.ios 0 ≠ 0) :
    s.setTraceDirs p = ({ tdDdir := .rw, maxBs := s.rwBs, odirect := true }, 0) := by
  rw [setTraceDirs, if_neg (fun h => hread h.1), if_neg (fun h => hread h.2),
    if_neg (fun h => hread h.1)]

lemma Summed.ios_eq_zero (hs : Summed queued s) (h : queued.length < 2 ^ 64) (i : Fin 2) :
    s.ios i = 0 ↔ ∀ io ∈ queued, iosIndex io.1 ≠ i := by
  have hle : queued.countP (fun io => iosIndex io.1 = i) ≤ queued.length := countP_le_length
  have h0 : BitVec.ofNat 64 (queued.countP fun io => iosIndex io.1 = i) = 0 ↔
      queued.countP (fun io => iosIndex io.1 = i) = 0 := by
    rw [← BitVec.toNat_inj, BitVec.toNat_ofNat, Nat.mod_eq_of_lt (hle.trans_lt h)]
    rfl
  rw [hs.ios, h0, countP_eq_zero]
  simp

lemma Summed.rwBs_toNat (h : Summed queued s) (hd : d = .read ∨ d = .write) :
    (s.rwBs (iosIndex d)).toNat = (lengthsOf d queued).foldl max 0 := by
  rcases hd with rfl | rfl
  · exact h.readBs
  · exact h.writeBs

end TraceJob

lemma foldl_max_mem (a : Nat) (ns : List Nat) : ns.foldl max a = a ∨ ns.foldl max a ∈ ns := by
  induction ns generalizing a with
  | nil => exact .inl rfl
  | cons n ns ih =>
    rcases ih (max a n) with hmax | hmem
    · rcases max_choice a n with ha | hn
      · exact .inl (hmax.trans ha)
      · exact .inr (mem_cons.2 (.inl (hmax.trans hn)))
    · exact .inr (mem_cons_of_mem n hmem)

lemma isGreatest_foldl_max {ns : List Nat} (h : ns ≠ []) :
    IsGreatest {n | n ∈ ns} (ns.foldl max 0) := by
  refine ⟨?_, fun n hn => IologRead.le_foldl_max (.inr hn)⟩
  rcases foldl_max_mem 0 ns with h0 | hmem
  · -- a maximum of zero: every entry is zero
    obtain ⟨n, rest, rfl⟩ := exists_cons_of_ne_nil h
    have hn : n ≤ (n :: rest).foldl max 0 := IologRead.le_foldl_max (.inr (.head _))
    rw [h0] at hn
    rw [h0, ← Nat.le_zero.1 hn]
    exact .head _
  · exact hmem

lemma lengthsOf_eq_nil {queued : List (Ddir × Nat)} :
    lengthsOf d queued = [] ↔ ∀ io ∈ queued, io.1 ≠ d := by
  simp [lengthsOf, filterMap_eq_nil_iff]

/-- The options `p'` are those of a trace that queued these I/Os, `p` the options before. -/
structure DirsRight (queued : List (Ddir × Nat)) (p p' : TraceDirs) : Prop where
  read : p'.tdDdir = .read ↔ ∀ io ∈ queued, io.1 = .read
  write : p'.tdDdir = .write ↔ ∀ io ∈ queued, io.1 = .write ∨ io.1 = .trim
  mixed : p'.tdDdir = .rw ↔
    ¬ (∀ io ∈ queued, io.1 = .read) ∧ ¬ ∀ io ∈ queued, io.1 = .write ∨ io.1 = .trim
  largest : ∀ d, d = .read ∨ d = .write → lengthsOf d queued ≠ [] →
    IsGreatest {n | n ∈ lengthsOf d queued} (p'.maxBs (iosIndex d)).toNat
  unused : ∀ d, d = .read ∨ d = .write → lengthsOf d queued = [] →
    p'.maxBs (iosIndex d) = p.maxBs (iosIndex d)

def TraceFile.SummaryRight (o : TraceOpts) (table : FileTable) (lastMaj lastMin : Nat)
    (file : TraceFile) (p : TraceDirs) : Prop :=
  let s := (TraceJob.start table lastMaj lastMin).loadBlktrace o file.records
  (s.setTraceDirs p).2 = 0 →
    DirsRight (s.ioLogList.filterMap LogPiece.io) p (s.setTraceDirs p).1

def TraceFile.Queues (o : TraceOpts) (file : TraceFile) (d : Ddir) : Prop :=
  ∃ t ∈ file.records, t.Queued o ∧ t.ddir = d

lemma TraceFile.queues_iff {o : TraceOpts} {file : TraceFile} :
    file.Queues o d ↔ ∃ io ∈ file.records.filterMap (tracedIo o), io.1 = d := by
  constructor
  · rintro ⟨t, ht, hque, rfl⟩
    exact ⟨_, mem_filterMap.2 ⟨t, ht, if_pos hque⟩, rfl⟩
  · rintro ⟨io, hio, rfl⟩
    obtain ⟨t, ht, htrc⟩ := mem_filterMap.1 hio
    unfold tracedIo at htrc
    split_ifs at htrc with hque
    cases htrc
    exact ⟨t, ht, hque, rfl⟩

section Options

variable {queued : List (Ddir × Nat)} {s : TraceJob} {p : TraceDirs}

section

variable (hs : TraceJob.Summed queued s)

include hs

lemma dirsRight_write_iff
    (hdir : ∀ io ∈ queued, io.1 = .write ∨ io.1 = .trim) (hne : queued ≠ []) : DirsRight queued p
        { tdDdir := .write, maxBs := update p.maxBs 1 (s.rwBs 1), odirect := true } ↔
      (lengthsOf .write queued = [] → p.maxBs 1 = 0) := by
  obtain ⟨io, rest, rfl⟩ := exists_cons_of_ne_nil hne
  have hntr : ¬ ∀ io' ∈ io :: rest, io'.1 = .read := by
    intro hall
    have hio := hdir io (.head _)
    rw [hall io mem_cons_self] at hio
    simp at hio
  have hrd : lengthsOf .read (io :: rest) = [] := by
    refine lengthsOf_eq_nil.2 fun io' hio' hread => ?_
    have := hdir io' hio'
    rw [hread] at this
    simp at this
  have hbs := hs.writeBs
  constructor
  · intro hrg hno
    have hkp : s.rwBs 1 = p.maxBs 1 := hrg.unused .write (.inr rfl) hno
    rw [hno] at hbs
    rw [← hkp]
    exact BitVec.eq_of_toNat_eq hbs
  · intro h0
    refine ⟨?_, ?_, ?_, ?_, ?_⟩
    · simpa using hntr
    · simpa using hdir
    · refine ⟨?_, fun h => absurd hdir h.2⟩
      intro hmx
      cases hmx
    · rintro d (rfl | rfl) hlng
      · exact absurd hrd hlng
      · change IsGreatest _ (s.rwBs 1).toNat
        rw [hbs]
        exact isGreatest_foldl_max hlng
    · rintro d (rfl | rfl) hlng
      · rfl
      · change s.rwBs 1 = p.maxBs 1
        rw [hlng] at hbs
        rw [h0 hlng]
        exact BitVec.eq_of_toNat_eq hbs

lemma dirsRight_rw_iff (h : ∃ io ∈ queued, io.1 = .read) :
    DirsRight queued p { tdDdir := .rw, maxBs := s.rwBs, odirect := true } ↔
      (¬ ∀ io ∈ queued, io.1 = .read) ∧ (lengthsOf .write queued = [] → p.maxBs 1 = 0) := by
  have hntw : ¬ ∀ io ∈ queued, io.1 = .write ∨ io.1 = .trim := by
    intro hall
    obtain ⟨io, hio, hdir⟩ := h
    have := hall io hio
    rw [hdir] at this
    simp at this
  have hrd : lengthsOf .read queued ≠ [] := by
    intro hnil
    obtain ⟨io, hio, hdir⟩ := h
    exact lengthsOf_eq_nil.1 hnil io hio hdir
  have hbs := hs.writeBs
  constructor
  · intro hrg
    refine ⟨(hrg.mixed.1 rfl).1, fun hno => ?_⟩
    have hkp : s.rwBs 1 = p.maxBs 1 := hrg.unused .write (.inr rfl) hno
    rw [hno] at hbs
    rw [← hkp]
    exact BitVec.eq_of_toNat_eq hbs
  · rintro ⟨hntr, h0⟩
    refine ⟨?_, ?_, ?_, ?_, ?_⟩
    · simpa using hntr
    · simpa using hntw
    · exact ⟨fun _ => ⟨hntr, hntw⟩, fun _ => rfl⟩
    · intro d hd hlng
      rw [hs.rwBs_toNat hd]
      exact isGreatest_foldl_max hlng
    · rintro d (rfl | rfl) hlng
      · exact absurd hlng hrd
      · change s.rwBs 1 = p.maxBs 1
        rw [hlng] at hbs
        rw [h0 hlng]
        exact BitVec.eq_of_toNat_eq hbs

lemma setTraceDirs_right_iff (h : queued.length < 2 ^ 64)
    (hdis : ∀ io ∈ queued, io.1 = .read ∨ io.1 = .write ∨ io.1 = .trim) :
    ((s.setTraceDirs p).2 = 0 → DirsRight queued p (s.setTraceDirs p).1) ↔
      queued = [] ∨ (∃ io ∈ queued, io.1 = .write) ∨
        ((∃ io ∈ queued, io.1 = .trim) ∧ p.maxBs 1 = 0) := by
  have hwrt : lengthsOf .write queued = [] ↔ ¬ ∃ io ∈ queued, io.1 = .write := by
    rw [lengthsOf_eq_nil]
    simp only [not_exists, not_and, ne_eq]
  by_cases hread : ∃ io ∈ queued, io.1 = .read
  · obtain ⟨r, hr, hrRead⟩ := hread
    have hios : s.ios 0 ≠ 0 := by
      rw [Ne, hs.ios_eq_zero h]
      exact fun hall => hall r hr (by rw [hrRead]; rfl)
    have hall : (¬ ∀ io ∈ queued, io.1 = .read) ↔
        (∃ io ∈ queued, io.1 = .write) ∨ ∃ io ∈ queued, io.1 = .trim := by
      constructor
      · intro hnot
        simp only [not_forall] at hnot
        obtain ⟨io, hio, hdir⟩ := hnot
        rcases (hdis io hio).resolve_left hdir with hwr | htr
        · exact .inl ⟨io, hio, hwr⟩
        · exact .inr ⟨io, hio, htr⟩
      · rintro (⟨io, hio, hdir⟩ | ⟨io, hio, hdir⟩) hrd
        all_goals exact absurd ((hrd io hio).symm.trans hdir) (by decide)
    have hne := ne_nil_of_mem hr
    rw [setTraceDirs_rw hios]
    simp only [true_imp_iff, dirsRight_rw_iff hs ⟨r, hr, hrRead⟩, hall, hwrt, hne, false_or]
    generalize (∃ io ∈ queued, io.1 = Ddir.write) = writes
    generalize (∃ io ∈ queued, io.1 = Ddir.trim) = discards
    tauto
  · have hwro : ∀ io ∈ queued, io.1 = .write ∨ io.1 = .trim := fun io hio =>
      (hdis io hio).resolve_left fun hdir => hread ⟨io, hio, hdir⟩
    have hrd0 : s.ios 0 = 0 := by
      refine (hs.ios_eq_zero h 0).2 fun io hio => ?_
      rcases hwro io hio with hdir | hdir
      all_goals rw [hdir]; decide
    cases hcs : queued with
    | nil =>
      have hwr0 := (hs.ios_eq_zero h 1).2 (by rw [hcs]; simp)
      rw [setTraceDirs_none hrd0 hwr0]
      simp
    | cons io rest =>
      rw [← hcs]
      have hio : io ∈ queued := by rw [hcs]; exact .head _
      have hne := ne_nil_of_mem hio
      have hwr1 : s.ios 1 ≠ 0 := by
        rw [Ne, hs.ios_eq_zero h]
        intro hall
        rcases hwro io hio with hdir | hdir
        all_goals exact hall io hio (by rw [hdir]; rfl)
      have hso : (∃ io ∈ queued, io.1 = .write) ∨ ∃ io ∈ queued, io.1 = .trim :=
        (hwro io hio).imp (⟨io, hio, ·⟩) (⟨io, hio, ·⟩)
      rw [setTraceDirs_write hrd0 hwr1]
      simp only [true_imp_iff, dirsRight_write_iff hs hwro hne, hwrt, hne, false_or]
      generalize (∃ io ∈ queued, io.1 = Ddir.write) = writes at hso ⊢
      generalize (∃ io ∈ queued, io.1 = Ddir.trim) = discards at hso ⊢
      tauto

end

end Options

/-- **The options fit the trace exactly if it has no I/O, has a write, or has a discard and no
    size for writes was set.** A trace of reads only is taken as mixed. -/
theorem TraceFile.summaryRight_iff (o : TraceOpts) (table : FileTable) (lastMaj lastMin : Nat)
    (file : TraceFile) (p : TraceDirs) :
    file.SummaryRight o table lastMaj lastMin p ↔
      (∀ t ∈ file.records, ¬ t.Queued o) ∨ file.Queues o .write ∨
        (file.Queues o .trim ∧ p.maxBs 1 = 0) := by
  have hs := (TraceJob.summed_start table lastMaj lastMin).loadBlktrace (o := o) file.records
  rw [nil_append] at hs
  have hsh : (file.records.filterMap (tracedIo o)).length < 2 ^ 64 :=
    (length_filterMap_le _ _).trans_lt file.short
  have hdir : ∀ io ∈ file.records.filterMap (tracedIo o),
      io.1 = .read ∨ io.1 = .write ∨ io.1 = .trim := by
    intro io hio
    obtain ⟨t, -, htrc⟩ := mem_filterMap.1 hio
    unfold tracedIo at htrc
    split_ifs at htrc
    cases htrc
    exact t.ddir_cases
  have hno : (∀ t ∈ file.records, ¬ t.Queued o) ↔ file.records.filterMap (tracedIo o) = [] := by
    rw [filterMap_eq_nil_iff]
    simp [tracedIo]
  rw [hno, queues_iff, queues_iff, ← setTraceDirs_right_iff hs hsh hdir]
  unfold TraceFile.SummaryRight
  simp [hs.list]

/-- A trace of one read is taken as mixed, and the size for writes becomes zero. -/
theorem TraceFile.summary_of_reads :
    ¬ TraceFile.SummaryRight TraceJob.devOpts TraceJob.oneFile 0 0
      ⟨[TraceJob.queueRead 0x800000], by decide⟩
      { tdDdir := .read, maxBs := fun _ => 4096, odirect := false } := by
  intro hrg
  have hdir := hrg (by decide)
  have hrw := hdir.read.2 (by decide)
  cases hrw

end FioSsd
