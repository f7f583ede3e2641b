import FioSsd.Types

/-! # Files and the replay of queued pieces

The file table of a job (`td->files`, `add_file`, `for_each_file`) and the consumer of the I/O log
(`read_iolog_get`, `ipo_special`, `remove_trim_entry`), shared by both readers of logs. -/

namespace FioSsd

variable {i j : Nat} {α ε : Type} {Q : α → Prop} {e : ε}

open Function List

abbrev FileName := List UInt8

structure LogFile where
  fileName : FileName
  (major minor : Nat)
  deriving DecidableEq, Repr

structure FileTable where
  files : Nat → Option LogFile
  (filesIndex filesSize nrFiles : Nat)
  directory : Option FileName

namespace FileTable

variable (t : FileTable) (fname : FileName)

/-- The name that `add_file` gives a file: behind `o.directory` and a slash. -/
def fullName : FileName :=
  match t.directory with
  | none => fname
  | some dir => dir ++ 47 :: fname

def addFile : Nat × FileTable :=
  (t.filesIndex, { t with
      files := update t.files t.filesIndex (some ⟨t.fullName fname, 0, 0⟩)
      filesIndex := t.filesIndex + 1
      filesSize := if t.filesSize ≤ t.filesIndex then (t.nrFiles + 1) % 2 ^ 32 else t.filesSize })

/-- The loop of `for_each_file` from slot `i` on, for `n` slots: the first file with a property. -/
def scanFiles (files : Nat → Option LogFile) (p : LogFile → Bool) : Nat → Nat → Option Nat
  | _, 0 => none
  | i, n + 1 =>
    match files i with
    | none => none
    | some f => if p f then some i else scanFiles files p (i + 1) n

def forEachFile (p : LogFile → Bool) : Option Nat :=
  if t.filesIndex = 0 then none else scanFiles t.files p 0 t.nrFiles

def getFileno : Int :=
  match t.forEachFile fun f => decide (f.fileName = fname) with
  | some i => i
  | none => -1

def addFileExclusive : Nat × FileTable :=
  match t.forEachFile fun f => decide (f.fileName = fname) with
  | some i => (i, t)
  | none => t.addFile fname

def fileAt (fileno : Int) : Option LogFile := if 0 ≤ fileno then t.files fileno.toNat else none

def Filled : Prop := ∀ i, t.filesIndex ≤ i → t.files i = none

variable {t} {p : LogFile → Bool}

lemma scanFiles_some {files : Nat → Option LogFile} {n : Nat} (h : scanFiles files p i n = some j)
    : ∃ f, files j = some f ∧ p f = true := by
  induction n generalizing i with
  | zero => cases h
  | succ n ih =>
    rw [scanFiles] at h
    split at h
    · cases h
    · rename_i f hf
      split_ifs at h with hp
      · cases h
        exact ⟨f, hf, hp⟩
      · exact ih h

lemma forEachFile_some (h : t.forEachFile p = some j) :
    ∃ f, t.files j = some f ∧ p f = true := by
  unfold forEachFile at h
  split_ifs at h
  exact scanFiles_some h

lemma addFile_files (i : Nat) :
    (t.addFile fname).2.files i =
      if i = t.filesIndex then some ⟨t.fullName fname, 0, 0⟩ else t.files i := by
  by_cases hi : i = t.filesIndex
  all_goals simp [addFile, hi]

lemma Filled.addFile (h : t.Filled) (fname : FileName) : (t.addFile fname).2.Filled := by
  intro i hi
  have hle : t.filesIndex + 1 ≤ i := hi
  rw [addFile_files, if_neg (by omega)]
  exact h i (by omega)

end FileTable

inductive FileAction
  | addFile | openFile | closeFile | unlinkFile
  deriving DecidableEq, Repr

inductive DelayOrAction
  | delay (d : BitVec 64)
  | action (a : FileAction)
  deriving DecidableEq, Repr

def DelayOrAction.fileAction : DelayOrAction → Option FileAction
  | .action a => some a
  | .delay d => [FileAction.addFile, .openFile, .closeFile, .unlinkFile][d.toNat % 2 ^ 32]?

/-- `trim_list.next` of a piece: itself after `INIT_FLIST_HEAD`, NULL after `memset`. -/
inductive TrimLink
  | self | null
  deriving DecidableEq, Repr

structure LogPiece where
  ddir : Ddir
  fileno : Int
  (offset len : BitVec 64)
  aux : DelayOrAction
  trimList : TrimLink
  deriving DecidableEq, Repr

def LogPiece.initIpo : LogPiece :=
  { ddir := .read, fileno := 0, offset := 0, len := 0, aux := .delay 0, trimList := .self }

def Avoids {ε α : Type} (e : ε) (r : Except ε α) (Q : α → Prop) : Prop :=
  r ≠ .error e ∧ ∀ a, r = .ok a → Q a

lemma avoids_ok {a : α} (h : Q a) : Avoids e (.ok a) Q := by
  refine ⟨by simp, ?_⟩
  intro b hb
  cases hb
  exact h

lemma avoids_error {e' : ε} (h : e' ≠ e) : Avoids e (.error e' : Except ε α) Q := by
  refine ⟨?_, ?_⟩
  · intro heq
    exact h (Except.error.inj heq)
  · intro b hb
    cases hb

lemma Avoids.bind {β : Type} {r : Except ε α} {f : α → Except ε β} {P : β → Prop} (h : Avoids e r Q)
    (hf : ∀ a, Q a → Avoids e (f a) P) :
    Avoids e (r.bind f) P := by
  cases r with
  | ok a => exact hf a (h.2 a rfl)
  | error e' => exact avoids_error fun heq => h.1 (heq ▸ rfl)

/-- What stops a replay: a NULL link, a failed assertion of `td_io_open_file` or `get_file`, a file
    number without file. -/
inductive ReplayFault
  | nullLink | alreadyOpen | notOpen | noFile
  deriving DecidableEq, Repr

structure Replay where
  table : FileTable
  isOpen : Nat → Bool
  references : Nat → Nat
  trimEntries : Nat

structure ReplayIoU where
  ddir : Ddir
  (offset buflen : BitVec 64)
  file : Nat
  deriving DecidableEq, Repr

namespace Replay

variable (s : Replay) (ipo : LogPiece)

/-- `remove_trim_entry`: only a list head that points to itself is empty; `flist_del_init` of any
    other one here follows NULL. -/
def removeTrimEntry : Except ReplayFault Replay :=
  match ipo.trimList with
  | .self => .ok s
  | .null => .error .nullLink

def slot (fileno : Int) : Except ReplayFault Nat :=
  match s.table.fileAt fileno with
  | some _ => .ok fileno.toNat
  | none => .error .noFile

def getFile (i : Nat) : Except ReplayFault Replay :=
  if s.isOpen i then
    .ok { s with references := update s.references i (s.references i + 1) }
  else .error .notOpen

def tdIoOpenFile (i : Nat) : Except ReplayFault Replay :=
  if s.isOpen i then .error .alreadyOpen
  else { s with isOpen := update s.isOpen i true }.getFile i

def tdIoCloseFile (i : Nat) : Replay :=
  if s.isOpen i then
    if s.references i - 1 ≠ 0 then
      { s with references := update s.references i (s.references i - 1) }
    else
      { s with
        references := update s.references i 0
        isOpen := update s.isOpen i false }
  else s

def ipoSpecial : Except ReplayFault (Option Replay) :=
  if ipo.ddir ≠ .inval then .ok none
  else
    match s.slot ipo.fileno with
    | .error e => .error e
    | .ok i =>
      match ipo.aux.fileAction with
      | some .openFile => (s.tdIoOpenFile i).map some
      | some .closeFile => .ok (some (s.tdIoCloseFile i))
      | _ => .ok (some s)

/-- `read_iolog_get`: the next I/O, the rest of the list, and the state. -/
def readIologGet (s : Replay) :
    List LogPiece → Except ReplayFault (Option ReplayIoU × List LogPiece × Replay)
  | [] => .ok (none, [], s)
  | ipo :: rest =>
    (s.removeTrimEntry ipo).bind fun s =>
      (s.ipoSpecial ipo).bind fun
        | some s => s.readIologGet rest
        | none =>
          if ipo.ddir = .wait then s.readIologGet rest
          else
            (s.slot ipo.fileno).bind fun i =>
              (s.getFile i).bind fun s => .ok (some ⟨ipo.ddir, ipo.offset, ipo.len, i⟩, rest, s)

/-- Calls of `read_iolog_get`, as many as given or until the list is used up. -/
def replay (s : Replay) : Nat → List LogPiece → Except ReplayFault (List ReplayIoU × Replay)
  | 0, _ => .ok ([], s)
  | calls + 1, list =>
    (s.readIologGet list).bind fun
      | (none, _, s) => .ok ([], s)
      | (some u, rest, s) => (s.replay calls rest).bind fun (us, s) => .ok (u :: us, s)

def start (table : FileTable) (trimEntries : Nat) : Replay :=
  { table := table, isOpen := fun _ => false, references := fun _ => 0, trimEntries := trimEntries }

variable {s}

lemma avoids_slot (fileno : Int) {e : ReplayFault} (h : e ≠ .noFile) :
    Avoids e (s.slot fileno) fun i => fileno.toNat = i := by
  unfold slot
  split
  · exact avoids_ok rfl
  · exact avoids_error h.symm

def LinksOk (list : List LogPiece) : Prop := ∀ ipo ∈ list, ipo.trimList = .self

lemma avoids_getFile_trim (i : Nat) {e : ReplayFault} (h : e ≠ .notOpen) :
    Avoids e (s.getFile i) fun s' => s'.trimEntries = s.trimEntries := by
  unfold getFile
  split
  · exact avoids_ok rfl
  · exact avoids_error h.symm

lemma avoids_tdIoOpenFile_trim (i : Nat) :
    Avoids .nullLink (s.tdIoOpenFile i) fun s' => s'.trimEntries = s.trimEntries := by
  unfold tdIoOpenFile
  split
  · exact avoids_error (by simp)
  · exact avoids_getFile_trim _ (by simp)

lemma tdIoCloseFile_trim (i : Nat) : (s.tdIoCloseFile i).trimEntries = s.trimEntries := by
  unfold tdIoCloseFile
  split
  · split <;> rfl
  · rfl

lemma avoids_ipoSpecial_trim : Avoids .nullLink (s.ipoSpecial ipo)
      fun r => ∀ s', r = some s' → s'.trimEntries = s.trimEntries := by
  unfold ipoSpecial
  split
  · exact avoids_ok (by simp)
  · have hsl := avoids_slot (s := s) ipo.fileno (e := .nullLink) (by simp)
    split
    · rename_i e' hs
      rw [hs] at hsl
      exact avoids_error fun heq => hsl.1 (heq ▸ rfl)
    · rename_i i _
      split
      · refine Avoids.bind (avoids_tdIoOpenFile_trim i) ?_
        intro s1 hs1
        refine avoids_ok ?_
        intro s' hs'
        cases hs'
        exact hs1
      · refine avoids_ok ?_
        intro s' hs'
        cases hs'
        exact tdIoCloseFile_trim i
      · refine avoids_ok ?_
        intro s' hs'
        cases hs'
        rfl

variable {list : List LogPiece}

lemma avoids_readIologGet_nullLink (h : LinksOk list) : Avoids .nullLink (s.readIologGet list)
      fun r => LinksOk r.2.1 ∧ r.2.2.trimEntries = s.trimEntries := by
  induction list generalizing s with
  | nil => exact avoids_ok ⟨h, rfl⟩
  | cons ipo rest ih =>
    have hrs : LinksOk rest := fun p hp => h p (.tail _ hp)
    have hrmv : s.removeTrimEntry ipo = .ok s := by
      rw [removeTrimEntry, h ipo mem_cons_self]
    rw [readIologGet, hrmv]
    refine Avoids.bind (avoids_ok (Q := fun s1 => s1 = s) rfl) ?_
    rintro _ rfl
    refine Avoids.bind (avoids_ipoSpecial_trim ipo) ?_
    intro special hspc
    cases special with
    | some s' =>
      have hnx := ih (s := s') hrs
      rw [hspc s' rfl] at hnx
      exact hnx
    | none =>
      by_cases hwt : ipo.ddir = .wait
      · simp only [hwt, if_true]
        exact ih hrs
      · simp only [hwt, if_false]
        refine Avoids.bind (avoids_slot _ (by simp)) ?_
        intro i _
        refine Avoids.bind (avoids_getFile_trim i (by simp)) ?_
        intro s' hs'
        exact avoids_ok ⟨hrs, hs'⟩

lemma avoids_replay_nullLink (h : LinksOk list) (calls : Nat) :
    Avoids .nullLink (s.replay calls list) fun r => r.2.trimEntries = s.trimEntries := by
  induction calls generalizing s list with
  | zero => exact avoids_ok rfl
  | succ calls ih =>
    rw [replay]
    refine Avoids.bind (avoids_readIologGet_nullLink h) ?_
    rintro ⟨u, rest, s'⟩ ⟨hrs, htr⟩
    cases u with
    | none => exact avoids_ok htr
    | some u =>
      refine Avoids.bind (ih hrs) ?_
      rintro ⟨us, s2⟩ hs2
      exact avoids_ok (hs2.trans htr)

def IsOpen : Prop := ipo.ddir = .inval ∧ ipo.aux.fileAction = some .openFile
deriving Decidable

def openNo : Option Nat := if IsOpen ipo then some ipo.fileno.toNat else none

def openNos (list : List LogPiece) : List Nat := list.filterMap openNo

structure OpensFresh (s : Replay) (list : List LogPiece) : Prop where
  nodup : (openNos list).Nodup
  closed : ∀ i ∈ openNos list, s.isOpen i = false

variable {ipo : LogPiece}

lemma openNos_cons_of_open (rest : List LogPiece) (h : IsOpen ipo)
    : openNos (ipo :: rest) = ipo.fileno.toNat :: openNos rest :=
  filterMap_cons_some (if_pos h)

lemma openNos_cons_of_not_open (rest : List LogPiece) (h : ¬ IsOpen ipo)
    : openNos (ipo :: rest) = openNos rest :=
  filterMap_cons_none (if_neg h)

variable {rest : List LogPiece}

lemma opensFresh_cons_of_not_open (h : ¬ IsOpen ipo) :
    OpensFresh s (ipo :: rest) ↔ OpensFresh s rest := by
  constructor
  · rintro ⟨hnd, hall⟩
    rw [openNos_cons_of_not_open rest h] at hnd hall
    exact ⟨hnd, hall⟩
  · rintro ⟨hnd, hall⟩
    rw [← openNos_cons_of_not_open rest h] at hnd hall
    exact ⟨hnd, hall⟩

lemma tdIoOpenFile_of_closed (h : s.isOpen i = false) :
    ∃ s', s.tdIoOpenFile i = .ok s' ∧ s'.isOpen = update s.isOpen i true ∧ s'.table = s.table := by
  rw [tdIoOpenFile, if_neg (by simp [h]), getFile]
  simp only [update_self, if_true]
  exact ⟨_, rfl, rfl, rfl⟩

lemma opensFresh_cons_iff {s' : Replay} (h : IsOpen ipo) (hcls : s.isOpen ipo.fileno.toNat = false)
    (hs' : s'.isOpen = update s.isOpen ipo.fileno.toNat true) :
    OpensFresh s (ipo :: rest) ↔ OpensFresh s' rest := by
  constructor
  · rintro ⟨hnd, hall⟩
    rw [openNos_cons_of_open rest h] at hnd hall
    obtain ⟨hnot, hrs⟩ := nodup_cons.1 hnd
    refine ⟨hrs, ?_⟩
    intro j hj
    have hne : j ≠ ipo.fileno.toNat := fun heq => hnot (heq ▸ hj)
    rw [hs', update_of_ne hne]
    exact hall j (.tail _ hj)
  · rintro ⟨hnd, hall⟩
    have hnot : ipo.fileno.toNat ∉ openNos rest := by
      intro hmem
      have hfl := hall _ hmem
      simp [hs'] at hfl
    refine ⟨?_, ?_⟩
    · rw [openNos_cons_of_open rest h]
      exact nodup_cons.2 ⟨hnot, hnd⟩
    · rw [openNos_cons_of_open rest h]
      refine forall_mem_cons.2 ⟨hcls, ?_⟩
      intro j hj
      have hne : j ≠ ipo.fileno.toNat := fun heq => hnot (heq ▸ hj)
      have hfl := hall j hj
      rwa [hs', update_of_ne hne] at hfl

lemma OpensFresh.of_le {s' : Replay} {list : List LogPiece} (h : OpensFresh s list)
    (hs' : ∀ i, s'.isOpen i = true → s.isOpen i = true) : OpensFresh s' list := by
  refine ⟨h.nodup, ?_⟩
  intro i hi
  have hcls := h.closed i hi
  by_contra htr
  rw [hs' i (by simpa using htr)] at hcls
  cases hcls

lemma tdIoCloseFile_isOpen (h : (s.tdIoCloseFile i).isOpen j = true) : s.isOpen j = true := by
  unfold tdIoCloseFile at h
  split_ifs at h
  · exact h
  · by_cases hj : j = i
    · simp [hj] at h
    · simpa [update_of_ne hj] using h
  · exact h

lemma avoids_getFile_open (i : Nat) (h : OpensFresh s list) :
    Avoids .alreadyOpen (s.getFile i) fun s' => OpensFresh s' list := by
  unfold getFile
  split
  · exact avoids_ok (h.of_le fun _ hj => hj)
  · exact avoids_error (by simp)

lemma avoids_ipoSpecial_open
    (h : OpensFresh s (ipo :: rest)) :
    Avoids .alreadyOpen (s.ipoSpecial ipo) fun r => OpensFresh (r.getD s) rest := by
  unfold ipoSpecial
  split
  · rename_i hddi
    exact avoids_ok ((opensFresh_cons_of_not_open fun hopn => hddi hopn.1).1 h)
  · rename_i hddi
    have hsl := avoids_slot (s := s) ipo.fileno (e := .alreadyOpen) (by simp)
    split
    · rename_i e' hs
      rw [hs] at hsl
      exact avoids_error fun heq => hsl.1 (heq ▸ rfl)
    · rename_i i hs
      have hi := hsl.2 i hs
      subst hi
      split
      · rename_i hact
        have hopn : IsOpen ipo := ⟨not_not.1 hddi, hact⟩
        have hcls : s.isOpen ipo.fileno.toNat = false := by
          refine h.closed _ ?_
          rw [openNos_cons_of_open rest hopn]
          exact .head _
        obtain ⟨s', hs', hiso, -⟩ := tdIoOpenFile_of_closed hcls
        rw [hs']
        exact avoids_ok ((opensFresh_cons_iff hopn hcls hiso).1 h)
      · rename_i hact
        have hnot : ¬ IsOpen ipo := fun hopn => by simp [IsOpen, hact] at hopn
        exact avoids_ok (((opensFresh_cons_of_not_open hnot).1 h).of_le fun _ => tdIoCloseFile_isOpen)
      · rename_i hoth _
        have hnot : ¬ IsOpen ipo := fun hopn => hoth hopn.2
        exact avoids_ok ((opensFresh_cons_of_not_open hnot).1 h)

lemma avoids_readIologGet_alreadyOpen (h : OpensFresh s list) :
    Avoids .alreadyOpen (s.readIologGet list) fun r => OpensFresh r.2.2 r.2.1 := by
  induction list generalizing s with
  | nil => exact avoids_ok h
  | cons ipo rest ih =>
    rw [readIologGet]
    have hrmv : Avoids .alreadyOpen (s.removeTrimEntry ipo) fun s1 => s1 = s := by
      unfold removeTrimEntry
      split
      · exact avoids_ok rfl
      · exact avoids_error (by simp)
    refine Avoids.bind hrmv ?_
    rintro _ rfl
    refine Avoids.bind (avoids_ipoSpecial_open h) ?_
    intro special hspc
    cases special with
    | some s' => exact ih hspc
    | none =>
      by_cases hwt : ipo.ddir = .wait
      · simp only [hwt, if_true]
        exact ih hspc
      · simp only [hwt, if_false]
        refine Avoids.bind (avoids_slot _ (by simp)) ?_
        intro i _
        refine Avoids.bind (avoids_getFile_open i hspc) ?_
        intro s' hs'
        exact avoids_ok hs'

lemma avoids_replay_alreadyOpen (h : OpensFresh s list) (calls : Nat) :
    Avoids .alreadyOpen (s.replay calls list) fun _ => True := by
  induction calls generalizing s list with
  | zero => exact avoids_ok trivial
  | succ calls ih =>
    rw [replay]
    refine Avoids.bind (avoids_readIologGet_alreadyOpen h) ?_
    rintro ⟨u, rest, s'⟩ hrs
    cases u with
    | none => exact avoids_ok trivial
    | some u =>
      refine Avoids.bind (ih hrs) ?_
      intro _ _
      exact avoids_ok trivial

/-- The calls of `ipo_special` for a list, from the start to the end or to a fault. -/
def replaySpecials (s : Replay) : List LogPiece → Except ReplayFault Replay
  | [] => .ok s
  | ipo :: rest => (s.ipoSpecial ipo).bind fun special => (special.getD s).replaySpecials rest

def OnlyOpens (table : FileTable) (list : List LogPiece) : Prop :=
  ∀ ipo ∈ list, ipo.ddir = .inval → IsOpen ipo ∧ (table.fileAt ipo.fileno).isSome = true

/-- **Replaying open events asks to open an open file exactly when two are for one file**, or one is
    for a file that is open already. -/
lemma replaySpecials_alreadyOpen_iff (hon : OnlyOpens s.table list) :
    s.replaySpecials list ≠ .error .alreadyOpen ↔ OpensFresh s list := by
  induction list generalizing s with
  | nil => exact ⟨fun _ => ⟨nodup_nil, by simp [openNos]⟩, fun _ => by simp [replaySpecials]⟩
  | cons ipo rest ih =>
    have hrs : OnlyOpens s.table rest := fun p hp => hon p (.tail _ hp)
    rw [replaySpecials]
    by_cases hddi : ipo.ddir = .inval
    · obtain ⟨hopn, hfil⟩ := hon ipo (.head _) hddi
      obtain ⟨f, hf⟩ := Option.isSome_iff_exists.1 hfil
      have hspc : s.ipoSpecial ipo = (s.tdIoOpenFile ipo.fileno.toNat).map some := by
        rw [ipoSpecial, if_neg (by simpa using hddi), slot, hf]
        simp [hopn.2]
      rw [hspc]
      by_cases hiso : s.isOpen ipo.fileno.toNat
      · -- the file is open: the assertion fails
        have hfl : s.tdIoOpenFile ipo.fileno.toNat = .error .alreadyOpen := if_pos hiso
        rw [hfl]
        refine ⟨fun h => absurd rfl h, ?_⟩
        intro h
        have hcls := h.closed ipo.fileno.toNat (by
          rw [openNos_cons_of_open rest hopn]
          exact .head _)
        rw [hiso] at hcls
        cases hcls
      · have hcls : s.isOpen ipo.fileno.toNat = false := by simpa using hiso
        obtain ⟨s', hs', his', htb⟩ := tdIoOpenFile_of_closed hcls
        rw [hs', opensFresh_cons_iff hopn hcls his']
        exact ih (htb ▸ hrs)
    · have hspc : s.ipoSpecial ipo = .ok none := if_pos hddi
      rw [hspc, opensFresh_cons_of_not_open fun hopn => hddi hopn.1]
      exact ih hrs

end Replay

end FioSsd
