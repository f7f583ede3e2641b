import FioSsd.Iolog.Log
import Mathlib.Data.List.TakeWhile

/-! # Writing an I/O log and reading it back

A line of `log_io_u` has the name of the file, but `read_iolog2` gives an I/O the file number of the
last line that added, opened or closed a file. -/

namespace FioSsd

open List LogEvent Scan

variable {token : List UInt8} {c : UInt8}

structure NamedIo where
  fileName : Option FileName
  ddir : Ddir
  (offset len : BitVec 64)
  deriving DecidableEq

def LogEvent.namedIo : LogEvent → Option NamedIo
  | .file _ _ => none
  | .io name d offset buflen => some ⟨some name.bytes, d.ddir, offset, buflen⟩

def LogPiece.namedIo (t : FileTable) (p : LogPiece) : Option NamedIo :=
  if p.ddir = .inval then none
  else some ⟨(t.fileAt p.fileno).map LogFile.fileName, p.ddir, p.offset, p.len⟩

def LogDdir.replayable : LogDdir → Bool
  | .read | .write | .sync | .datasync => true
  | .syncFileRange | .trim => false

def PlainToken (token : List UInt8) : Prop :=
  token ≠ [] ∧ token.length ≤ 256 ∧ ∀ c ∈ token, Scan.isSpace c = false ∧ c ≠ 0

variable (name : LogName)

lemma LogName.plainToken : PlainToken name.bytes :=
  ⟨name.nonempty, name.short, name.plain⟩

lemma plainToken_of_all (hne : token ≠ []) (h : token.length ≤ 256)
    (hall : token.all (fun c => !isSpace c && c != 0) = true) : PlainToken token := by
  refine ⟨hne, h, ?_⟩
  intro c hc
  simpa using all_eq_true.1 hall c hc

lemma FileLog.act_plainToken (what : FileLog) : PlainToken what.act := by
  cases what <;> exact plainToken_of_all (by decide) (by decide) (by decide)

lemma LogDdir.act_plainToken (d : LogDdir) : PlainToken (ddirAct d.ddir) := by
  cases d <;> exact plainToken_of_all (by decide) (by decide) (by decide)

lemma ne_of_isDigit (h : isDigit c = true) : c ≠ 0 ∧ c ≠ 10 := by
  refine ⟨?_, ?_⟩
  all_goals
    rintro rfl
    cases h

lemma PlainToken.ne (h : PlainToken token) (hc : c ∈ token) : c ≠ 0 ∧ c ≠ 10 := by
  obtain ⟨hsp, h0⟩ := h.2.2 c hc
  refine ⟨h0, ?_⟩
  rintro rfl
  cases hsp

section

variable {rest : List UInt8} (h : PlainToken token)
  (hrs : Scan.Stops (fun c => !Scan.isSpace c) rest)

include h hrs

lemma PlainToken.scan :
    scanToken 256 (token ++ rest) = some (token, rest) := by
  have hno : ∀ c ∈ ([] : List UInt8), isSpace c = true := by simp
  exact scanToken_append h.1 h.2.1 (fun c hc => (h.2.2 c hc).1) hno hrs

lemma PlainToken.scan_blank :
    scanToken 256 (32 :: (token ++ rest)) = some (token, rest) := by
  have hbl : ∀ c ∈ ([32] : List UInt8), isSpace c = true := by simp [isSpace]
  exact scanToken_append h.1 h.2.1 (fun c hc => (h.2.2 c hc).1) hbl hrs

end

lemma stops_blank (rest : List UInt8) : Scan.Stops (fun c => !isSpace c) (32 :: rest) := by
  intro c hc
  cases hc
  decide

variable (e : LogEvent)

lemma LogEvent.ne_of_mem_line (h : c ∈ e.line) : c ≠ 0 ∧ c ≠ 10 := by
  cases e with
  | file name what =>
    rw [line, mem_append, mem_cons] at h
    rcases h with h | rfl | h
    · exact name.plainToken.ne h
    · decide
    · exact what.act_plainToken.ne h
  | io name d offset buflen =>
    simp [line, mem_append] at h
    rcases h with h | rfl | h | rfl | h | rfl | h
    · exact name.plainToken.ne h
    · decide
    · exact d.act_plainToken.ne h
    · decide
    · exact ne_of_isDigit (isDigit_of_mem_decimal h)
    · decide
    · exact ne_of_isDigit (isDigit_of_mem_decimal h)

lemma LogEvent.length_line : e.line.length + 1 ≤ 4095 := by
  cases e with
  | file name what =>
    have hnm := name.short
    have hact := what.act_plainToken.2.1
    simp only [line, length_append, length_cons]
    omega
  | io name d offset buflen =>
    have hnm := name.short
    have hact := d.act_plainToken.2.1
    have hdec : ∀ x : BitVec 64, (decimal x.toNat).length ≤ 20 := by
      intro x
      exact length_decimal_le (by norm_num) (x.isLt.trans (by norm_num))
    have hoff := hdec offset
    have hbfl := hdec buflen
    simp only [line, length_append, length_cons]
    omega

lemma LogEvent.takeWhile_line : (e.line ++ [10]).takeWhile (fun c => c != 0) = e.line ++ [10] := by
  rw [takeWhile_eq_self_iff]
  intro c hc
  rcases mem_append.1 hc with hc | hc
  · simpa using (e.ne_of_mem_line hc).1
  · rw [mem_singleton.1 hc]
    decide

lemma scanIologLine_file (what : FileLog) :
    scanIologLine ((file name what).line ++ [10]) = .two name.bytes what.act := by
  have hnwl : Scan.Stops (fun c => !isSpace c) [10] := by
    intro c hc
    cases hc
    decide
  have hnmb : scanUnsigned [10] = none := by decide
  rw [scanIologLine, takeWhile_line]
  simp [line, name.plainToken.scan (stops_blank _), what.act_plainToken.scan_blank hnwl, hnmb]

lemma scanIologLine_io (d : LogDdir) (offset buflen : BitVec 64) :
    scanIologLine ((io name d offset buflen).line ++ [10]) =
      .four name.bytes (ddirAct d.ddir) offset buflen := by
  have hbl : ∀ rest, Scan.Stops isDigit (32 :: rest) := by
    intro rest c hc
    cases hc
    decide
  have hnwl : Scan.Stops isDigit [10] := by
    intro c hc
    cases hc
    decide
  rw [scanIologLine, takeWhile_line]
  simp [line, name.plainToken.scan (stops_blank _), d.act_plainToken.scan_blank (stops_blank _),
    scanUnsigned_decimal offset.isLt (hbl _), scanUnsigned_decimal buflen.isLt hnwl,
    BitVec.ofNat_toNat, BitVec.setWidth_eq]

lemma bufLines_logText (events : List LogEvent) :
    bufLines 4095 [] (logText events) = events.map fun e => e.line ++ [10] := by
  have hbds : ∀ body ∈ events.map line,
      (∀ c ∈ body, c ≠ 10) ∧ body.length + 1 ≤ 4095 := by
    intro body hbd
    obtain ⟨e, -, rfl⟩ := mem_map.1 hbd
    exact ⟨fun c hc => (e.ne_of_mem_line hc).2, e.length_line⟩
  have h := bufLines_flatten hbds
  rw [map_map] at h
  exact h

/-- The file table and the file number after an event: only file events change them. -/
def selectFile (t : FileTable × Int) : LogEvent → FileTable × Int
  | .file name .add =>
    let added := { t.1 with nrFiles := t.1.nrFiles + 1 }.addFile name.bytes
    (added.2, added.1)
  | .file name _ => (t.1, t.1.getFileno name.bytes)
  | .io _ _ _ _ => t

def selectFiles (table : FileTable) (events : List LogEvent) : FileTable × Int :=
  events.foldl selectFile ({ table with filesIndex := 0 }, 0)

variable (final : FileTable) (fileno : Int)

/-- What becomes of an event when the file number is `fileno`, under the final table. -/
def eventIo : LogEvent → List NamedIo
  | .file _ _ => []
  | .io _ d offset buflen =>
    if d.replayable then
      [⟨(final.fileAt fileno).map LogFile.fileName, d.ddir, offset,
        (buflen.setWidth 32).setWidth 64⟩]
    else []

def replayed (final : FileTable) : FileTable × Int → List LogEvent → List NamedIo
  | _, [] => []
  | t, e :: events => eventIo final t.2 e ++ replayed final (selectFile t e) events

namespace IologRead

variable (s : IologRead)

lemma readLine_event (final : FileTable) (e : LogEvent) :
    let s' := s.readLine false (e.line ++ [10])
    (s'.table, s'.fileno) = selectFile (s.table, s.fileno) e ∧
      s'.ioLogList.filterMap (LogPiece.namedIo final) =
        s.ioLogList.filterMap (LogPiece.namedIo final) ++ eventIo final s.fileno e := by
  cases e with
  | file name what =>
    simp only [readLine, scanIologLine_file]
    cases what with
    | add => exact ⟨rfl, (append_nil _).symm⟩
    | opened | closed =>
      refine ⟨rfl, ?_⟩
      change (s.ioLogList ++ [_]).filterMap _ = _
      rw [filterMap_append]
      rfl
  | io name d offset buflen =>
    simp only [readLine, scanIologLine_io]
    cases d with
    | syncFileRange | trim => exact ⟨rfl, (append_nil _).symm⟩
    | read | write | sync | datasync =>
      refine ⟨rfl, ?_⟩
      change (s.ioLogList ++ [_]).filterMap _ = _
      rw [filterMap_append]
      rfl

lemma readLines_events (final : FileTable) (events : List LogEvent) :
    let s' := s.readLines false (events.map fun e => e.line ++ [10])
    (s'.table, s'.fileno) = events.foldl selectFile (s.table, s.fileno) ∧
      s'.ioLogList.filterMap (LogPiece.namedIo final) =
        s.ioLogList.filterMap (LogPiece.namedIo final) ++
          replayed final (s.table, s.fileno) events := by
  induction events generalizing s with
  | nil => exact ⟨rfl, (append_nil _).symm⟩
  | cons e events ih =>
    obtain ⟨hslc, hpcs⟩ := s.readLine_event final e
    obtain ⟨ihselect, ihpieces⟩ := ih (s.readLine false (e.line ++ [10]))
    refine ⟨?_, ?_⟩
    · rw [foldl_cons, ← hslc]
      exact ihselect
    · rw [replayed, ← hslc, ← append_assoc, ← hpcs]
      exact ihpieces

end IologRead

def IoKept (name : LogName) (d : LogDdir) (buflen : BitVec 64) :
    Prop :=
  d.replayable = true ∧ buflen.toNat < 2 ^ 32 ∧
    (final.fileAt fileno).map LogFile.fileName = some name.bytes

lemma setWidth_eq_iff (x : BitVec 64) : (x.setWidth 32).setWidth 64 = x ↔ x.toNat < 2 ^ 32 := by
  rw [← BitVec.toNat_inj, BitVec.toNat_setWidth, BitVec.toNat_setWidth]
  have hx := x.isLt
  omega

lemma eventIo_eq_namedIo_iff (e : LogEvent) :
    eventIo final fileno e = e.namedIo.toList ↔
      ∀ name d offset buflen, e = .io name d offset buflen → IoKept final fileno name d buflen := by
  cases e with
  | file name what => simp [eventIo, namedIo]
  | io name d offset buflen =>
    have hkp : eventIo final fileno (.io name d offset buflen) =
        [⟨some name.bytes, d.ddir, offset, buflen⟩] ↔ IoKept final fileno name d buflen := by
      rw [eventIo, IoKept]
      by_cases hd : d.replayable = true
      · rw [if_pos hd, singleton_inj, NamedIo.mk.injEq, setWidth_eq_iff]
        tauto
      · simp [hd]
    refine hkp.trans ⟨?_, fun h => h name d offset buflen rfl⟩
    rintro h name' d' offset' buflen' heq
    cases heq
    exact h

lemma length_eventIo_le (e : LogEvent) :
    (eventIo final fileno e).length ≤ e.namedIo.toList.length := by
  cases e with
  | file name what => exact le_refl 0
  | io name d offset buflen =>
    rw [eventIo]
    split_ifs
    · exact le_refl 1
    · exact Nat.zero_le 1

lemma filterMap_namedIo_cons (events : List LogEvent) :
    (e :: events).filterMap namedIo =
      e.namedIo.toList ++ events.filterMap namedIo := by
  cases e <;> rfl

lemma length_replayed_le (t : FileTable × Int) (events : List LogEvent) :
    (replayed final t events).length ≤ (events.filterMap namedIo).length := by
  induction events generalizing t with
  | nil => rfl
  | cons e events ih =>
    rw [replayed, filterMap_namedIo_cons, length_append, length_append]
    exact Nat.add_le_add (length_eventIo_le final t.2 e) (ih (selectFile t e))

lemma forall_ioKept_cons (t : FileTable × Int) (e : LogEvent) (events : List LogEvent) :
    (∀ before name d offset buflen after, e :: events = before ++ .io name d offset buflen :: after →
        IoKept final (before.foldl selectFile t).2 name d buflen) ↔
      (∀ name d offset buflen, e = .io name d offset buflen → IoKept final t.2 name d buflen) ∧
      ∀ before name d offset buflen after, events = before ++ .io name d offset buflen :: after →
        IoKept final (before.foldl selectFile (selectFile t e)).2 name d buflen := by
  constructor
  · intro h
    refine ⟨?_, ?_⟩
    · rintro name d offset buflen rfl
      exact h [] name d offset buflen events rfl
    · rintro before name d offset buflen after rfl
      exact h (e :: before) name d offset buflen after rfl
  · rintro ⟨hfr, hoth⟩ before name d offset buflen after heq
    cases before with
    | nil =>
      obtain ⟨rfl, rfl⟩ := List.cons.inj heq
      exact hfr name d offset buflen rfl
    | cons b before =>
      obtain ⟨rfl, rfl⟩ := List.cons.inj heq
      exact hoth before name d offset buflen after rfl

lemma replayed_eq_iff (t : FileTable × Int) (events : List LogEvent) :
    replayed final t events = events.filterMap namedIo ↔
      ∀ before name d offset buflen after, events = before ++ .io name d offset buflen :: after →
          IoKept final (before.foldl selectFile t).2 name d buflen := by
  induction events generalizing t with
  | nil => simp [replayed]
  | cons e events ih =>
    rw [forall_ioKept_cons, ← eventIo_eq_namedIo_iff, ← ih, replayed, filterMap_namedIo_cons]
    constructor
    · intro h
      -- nothing is made of a refused I/O, and the others cannot make up for it
      have hone := length_eventIo_le final t.2 e
      have hoth := length_replayed_le final (selectFile t e) events
      have hlen := congrArg List.length h
      rw [length_append, length_append] at hlen
      exact append_inj h (by omega)
    · rintro ⟨hone, hoth⟩
      rw [hone, hoth]

def ReplaysLog (s : IologRead) (events : List LogEvent) : Prop :=
  let s' := (s.readIolog2 false (logText events)).1
  s'.ioLogList.filterMap (LogPiece.namedIo s'.table) = events.filterMap LogEvent.namedIo

lemma replaysLog_iff_replayed {s : IologRead} (h : s.ioLogList = [] ∧ s.fileno = 0)
    (events : List LogEvent) : ReplaysLog s events ↔
      replayed (selectFiles s.table events).1 ({ s.table with filesIndex := 0 }, 0) events =
        events.filterMap namedIo := by
  have hr := fun final => s.freeReleaseFiles.readLines_events final events
  have htb : (s.freeReleaseFiles.readLines false
      (events.map fun e => e.line ++ [10])).table = (selectFiles s.table events).1 := by
    rw [selectFiles, ← h.2]
    exact congrArg Prod.fst (hr s.table).1
  have hpcs := (hr (selectFiles s.table events).1).2
  obtain ⟨tdDdir, hend⟩ := IologRead.setTdDdir_fst false
    (s.freeReleaseFiles.readLines false (events.map fun e => e.line ++ [10]))
  unfold ReplaysLog
  dsimp only
  rw [IologRead.readIolog2, bufLines_logText, hend, htb, hpcs]
  simp [IologRead.freeReleaseFiles, h.1, h.2]

/-- **A log replays what was recorded exactly if every I/O is a read, write, sync or datasync of less
    than 4 GiB, and the last file that was added, opened or closed before it is its own.** -/
theorem replaysLog_iff (table : FileTable) (totalIoSize : BitVec 64) (optWords : Int → BitVec 32)
    (tdDdir : TdDdir) (offset₀ : BitVec 64) (bytes₀ : BitVec 32) (events : List LogEvent) :
    ReplaysLog (IologRead.start table totalIoSize optWords tdDdir offset₀ bytes₀) events ↔
      ∀ before name d offset buflen after,
        events = before ++ .io name d offset buflen :: after →
          IoKept (selectFiles table events).1 (selectFiles table before).2 name d buflen := by
  rw [replaysLog_iff_replayed ⟨rfl, rfl⟩]
  exact replayed_eq_iff _ _ events

def letterName (c : UInt8) (hc : Scan.isSpace c = false ∧ c ≠ 0) : LogName :=
  ⟨[c], by simp, by simp, by simpa using hc⟩

/-- Two files are added and opened, then the first one is read: the read is replayed on the
    second. -/
theorem read_replayed_on_other_file :
    ¬ ReplaysLog (IologRead.start ⟨fun _ => none, 0, 0, 1, none⟩ 0 (fun _ => 4096) .read 0 0)
      [.file (letterName 97 (by decide)) .add, .file (letterName 98 (by decide)) .add,
        .file (letterName 97 (by decide)) .opened, .file (letterName 98 (by decide)) .opened,
        .io (letterName 97 (by decide)) .read 0 512] := by
  intro h
  rw [replaysLog_iff_replayed ⟨rfl, rfl⟩] at h
  revert h
  decide +kernel

end FioSsd
