import FioSsd.Backend.Versions
import FioSsd.Generator.Flags

/-! # Choosing files

`get_next_file` goes on with the file it is at as long as `file_service_type` says so, and otherwise
takes the files in turn or draws one (`io_u.c`). -/

namespace FioSsd

variable {t : FileTry} {close : Int} {f : FileId} {n : Nat}

variable {hash : KeyHash} {o : ThreadOptions}

namespace Td

structure SameDone (td td' : Td) : Prop where
  files : td.hist.SameDone td'.hist
  count : td'.issue.nrDoneFiles = td.issue.nrDoneFiles

lemma SameDone.trans {td td' td'' : Td} (a : SameDone td td') (b : SameDone td' td'') :
    SameDone td td'' :=
  ⟨.trans FioFile.done_frame a.files b.files, b.count.trans a.count⟩

variable {td td' : Td}

lemma SameDone.of_eq (hhs : td'.hist = td.hist) (h : td'.issue = td.issue) :
    SameDone td td' :=
  ⟨.of_files FioFile.done_frame (by rw [hhs]), by rw [h]⟩

lemma SameDone.of_hist {td : Td} {hist : History} (h : td.hist.SameDone hist) :
    SameDone td { td with hist := hist } :=
  ⟨h, rfl⟩

lemma putFile_done {h h' : History} {ret : Int}
    (hr : h.putFile f close = .ok (ret, h')) : h.SameDone h' := by
  obtain ⟨hoth, -, hdn, -⟩ := putFile_files hr
  intro g
  by_cases hg : g = f
  · rw [hg]
    exact hdn
  · rw [hoth g hg]

lemma noteError_sameDone (td : Td) (failed : Bool) (err : Int) :
    SameDone td (td.noteError failed err) := by
  unfold noteError
  split_ifs
  · rw [tdVerror_eq]
    exact .of_eq rfl rfl
  · exact .of_eq rfl rfl

lemma notePos_sameDone (td : Td) (f : FileId) (ioU : IoU) : SameDone td (td.notePos f ioU) := by
  refine ⟨.update FioFile.done_frame ?_ rfl, rfl⟩
  rfl

lemma putIoU_sameDone {u : Nat} (h : td.putIoU u close = .ok td') :
    SameDone td td' := by
  rcases putIoU_split h with ⟨-, rfl⟩ | ⟨f, td1, -, -, hput, rfl⟩
  · exact .of_eq rfl rfl
  · obtain ⟨ret, hist, error, hcl, rfl⟩ := putFileLog_cases hput
    exact (SameDone.of_hist (putFile_done hcl)).trans (.of_eq rfl rfl)

def doneFiles (n : Nat) (td : Td) : Finset FileId :=
  (Finset.range n).filter fun f => (td.hist.files f).done = true

lemma SameDone.doneFiles_eq (h : SameDone td td') (n : Nat) :
    td'.doneFiles n = td.doneFiles n := by
  unfold doneFiles
  refine Finset.filter_congr fun f _ => ?_
  rw [h.files f]

end Td

inductive FileServiceType
  | random | rr | seq
  deriving DecidableEq

structure FileService where
  type : FileServiceType
  nr : Nat

structure Service where
  nextFile : Nat
  file : Option FileId
  left : Nat

/-- What a call of `get_next_file` meets: how opening a file ends, and the files that are drawn. -/
structure ServiceMeets (n : Nat) where
  opens : FileId → History.OpenOutcome × Int
  draws : List FileTry
  drawn : ∀ t ∈ draws, t.file < n

def Service.held (s : Service) (td : Td) : Option FileId :=
  s.file.filter fun f => (td.hist.files f).isOpen && !(td.hist.files f).closing

namespace Td

variable (o) (svc : FileService)

/-- One round of `get_next_file_rr` and `get_next_file_rand`; the flag says that the file will do.
-/
def tryFile (td : Td) (t : FileTry) : Except Fault (Bool × Td) :=
  if (td.hist.files t.file).done then .ok (false, td)
  else do
    let (failed, hist) ← td.hist.ensureOpen t.file t.opened
    return (!(failed || (hist.files t.file).closing),
      { td with hist := hist }.noteError failed t.openError)

def getNextFileRr (opens : FileId → History.OpenOutcome × Int) (old : Nat) :
    Nat → Td → Nat → Except Fault (Option FileId × Td × Nat)
  | 0, _, _ => .error .outOfFuel
  | fuel + 1, td, next => do
    let (good, td) ← td.tryFile ⟨next, (opens next).1, (opens next).2⟩
    let after := if o.nrFiles ≤ next + 1 then 0 else next + 1
    if good then return (some next, td, after)
    else if after ≠ old then getNextFileRr opens old fuel td after
    else return (none, td, after)

def getNextFileRand (td : Td) : List FileTry → Except Fault (FileId × Td)
  | [] => .error .outOfFuel
  | t :: rest => do
    let (good, td) ← td.tryFile t
    if good then return (t.file, td) else td.getNextFileRand rest

def chooseFile (td : Td) (s : Service) (m : ServiceMeets o.nrFiles) :
    Except Fault (Option FileId × Td × Service) :=
  match svc.type with
  | .random => do
    let (f, td) ← td.getNextFileRand m.draws
    return (some f, td, { s with file := some f, left := dec32 svc.nr })
  | .rr | .seq => do
    let (f, td, next) ← getNextFileRr o m.opens s.nextFile o.nrFiles td s.nextFile
    return (f, td, ⟨next, f, dec32 svc.nr⟩)

def serveFile (td : Td) (s : Service) (m : ServiceMeets o.nrFiles) :
    Except Fault (Option FileId × Td × Service) :=
  if o.nrFiles ≤ td.issue.nrDoneFiles then .ok (none, td, s)
  else
    match s.held td with
    | none => td.chooseFile o svc s m
    | some f =>
      if svc.type = .seq then .ok (some f, td, s)
      else if s.left ≠ 0 then .ok (some f, td, { s with left := dec32 s.left })
      else td.chooseFile o svc s m

variable {o svc} {td td' : Td} {s s' : Service} {m : ServiceMeets o.nrFiles} {res : Option FileId}

lemma tryFiles_cons (td : Td) (t : FileTry) (rest : List FileTry) :
    td.tryFiles (t :: rest) = (do
      let (good, td) ← td.tryFile t
      if good then return (some t.file, td) else td.tryFiles rest) := by
  rw [tryFiles.eq_2]
  unfold tryFile
  by_cases hdn : (td.hist.files t.file).done
  · rw [if_pos hdn, if_pos hdn]
    rfl
  · rw [if_neg hdn, if_neg hdn]
    cases hopn : td.hist.ensureOpen t.file t.opened with
    | error e => rfl
    | ok opened =>
      obtain ⟨failed, hist⟩ := opened
      simp only [bind, Except.bind, pure, Except.pure]
      cases failed || (hist.files t.file).closing <;> rfl

lemma tryFile_sameDone {good : Bool} (h : td.tryFile t = .ok (good, td')) :
    SameDone td td' ∧ (good = true → (td.hist.files t.file).done = false) := by
  unfold tryFile at h
  split_ifs at h with hdn
  · cases h
    exact ⟨.of_eq rfl rfl, nofun⟩
  · obtain ⟨⟨failed, hist⟩, hopn, h⟩ := of_bind h
    cases h
    refine ⟨?_, fun _ => by simpa using hdn⟩
    exact (SameDone.of_hist (History.ensureOpen_done hopn)).trans
      (noteError_sameDone _ failed t.openError)

def Tries (n : Nat) (td : Td) (res : Option FileId) (td' : Td) : Prop :=
  ∃ tries : List FileTry, (∀ t ∈ tries, t.file < n) ∧ td.tryFiles tries = .ok (res, td')

lemma Tries.good (hlt : t.file < n)
    (h : td.tryFile t = .ok (true, td')) : Tries n td (some t.file) td' := by
  refine ⟨[t], fun t' ht' => ?_, ?_⟩
  · rw [List.mem_singleton.1 ht']
    exact hlt
  · rw [tryFiles_cons, h]
    rfl

lemma Tries.bad {td1 : Td} (hlt : t.file < n)
    (hr : td.tryFile t = .ok (false, td1)) (h : Tries n td1 res td') : Tries n td res td' := by
  obtain ⟨tries, hfl, h⟩ := h
  refine ⟨t :: tries, fun t' ht' => ?_, ?_⟩
  · rcases List.mem_cons.1 ht' with rfl | ht'
    · exact hlt
    · exact hfl t' ht'
  · rw [tryFiles_cons, hr]
    exact h

lemma Tries.spec (h : Tries n td res td') :
    SameDone td td' ∧ ∀ f, res = some f → f < n ∧ (td.hist.files f).done = false := by
  obtain ⟨tries, hfl, hr⟩ := h
  induction tries generalizing td with
  | nil =>
    cases hr
    exact ⟨.of_eq rfl rfl, nofun⟩
  | cons t rest ih =>
    rw [tryFiles_cons] at hr
    obtain ⟨⟨good, td1⟩, htry, hr⟩ := of_bind hr
    obtain ⟨heq, hnot⟩ := tryFile_sameDone htry
    cases good with
    | true =>
      cases hr
      refine ⟨heq, fun f hf => ?_⟩
      cases hf
      exact ⟨hfl t (.head _), hnot rfl⟩
    | false =>
      obtain ⟨hrs, hchs⟩ := ih (fun t' ht' => hfl t' (.tail _ ht')) hr
      refine ⟨heq.trans hrs, fun f hf => ?_⟩
      obtain ⟨hlt, hdn⟩ := hchs f hf
      exact ⟨hlt, (heq.files f).symm.trans hdn⟩

lemma getNextFileRr_tries {opens : FileId → History.OpenOutcome × Int} {old fuel next' : Nat} :
    ∀ {td : Td} {next : Nat}, next < o.nrFiles →
      getNextFileRr o opens old fuel td next = .ok (res, td', next') →
      Tries o.nrFiles td res td' ∧ next' < o.nrFiles := by
  induction fuel with
  | zero =>
    intro td next _ hr
    simp [getNextFileRr] at hr
  | succ fuel ih =>
    intro td next hlt hr
    obtain ⟨⟨good, td1⟩, htry, hr⟩ := of_bind hr
    have hps : (if o.nrFiles ≤ next + 1 then 0 else next + 1) < o.nrFiles := by
      split_ifs <;> omega
    cases good with
    | true =>
      cases hr
      exact ⟨Tries.good hlt htry, hps⟩
    | false =>
      simp only [Bool.false_eq_true, if_false] at hr
      by_cases hag : (if o.nrFiles ≤ next + 1 then 0 else next + 1) ≠ old
      · rw [if_pos hag] at hr
        obtain ⟨hrs, hnx⟩ := ih hps hr
        exact ⟨Tries.bad hlt htry hrs, hnx⟩
      · rw [if_neg hag] at hr
        cases hr
        exact ⟨Tries.bad hlt htry ⟨[], by simp, rfl⟩, hps⟩

lemma getNextFileRand_tries {draws : List FileTry} :
    ∀ {td : Td}, (∀ t ∈ draws, t.file < n) → td.getNextFileRand draws = .ok (f, td') →
      Tries n td (some f) td' := by
  induction draws with
  | nil =>
    intro td _ hr
    simp [getNextFileRand] at hr
  | cons t rest ih =>
    intro td hdrawn hr
    obtain ⟨⟨good, td1⟩, htry, hr⟩ := of_bind hr
    have hlt := hdrawn t (.head _)
    cases good with
    | true =>
      cases hr
      exact .good hlt htry
    | false => exact .bad hlt htry (ih (fun t' ht' => hdrawn t' (.tail _ ht')) hr)

structure ServesJob (n : Nat) (s : Service) : Prop where
  file : ∀ f, s.file = some f → f < n
  next : 0 < n → s.nextFile < n

structure Chosen (n : Nat) (td : Td) (res : Option FileId) (td' : Td) (s' : Service) : Prop where
  tries : Tries n td res td'
  atFile : s'.file = res
  serves : ServesJob n s'

lemma chooseFile_spec (hs : ServesJob o.nrFiles s) (hpos : 0 < o.nrFiles)
    (h : td.chooseFile o svc s m = .ok (res, td', s')) : Chosen o.nrFiles td res td' s' := by
  unfold chooseFile at h
  cases hty : svc.type with
  | random =>
    simp only [hty] at h
    obtain ⟨⟨f, td1⟩, hrn, h⟩ := of_bind h
    cases h
    have htr := getNextFileRand_tries m.drawn hrn
    exact ⟨htr, rfl, fun g hg => (htr.spec.2 g hg).1, hs.next⟩
  | rr | seq =>
    simp only [hty] at h
    obtain ⟨⟨f, td1, next⟩, hrr, h⟩ := of_bind h
    cases h
    obtain ⟨htr, hnx⟩ := getNextFileRr_tries (hs.next hpos) hrr
    exact ⟨htr, rfl, fun g hg => (htr.spec.2 g hg).1, fun _ => hnx⟩

def HeldFresh (n : Nat) (td : Td) (s : Service) : Prop :=
  ∀ f, s.held td = some f → (td.hist.files f).done = true → n ≤ td.issue.nrDoneFiles

lemma held_eq_some (h : s.held td = some f) :
    s.file = some f ∧ (td.hist.files f).isOpen = true ∧ (td.hist.files f).closing = false := by
  obtain ⟨hfl, hopn⟩ := Option.filter_eq_some_iff.1 h
  simpa [hfl] using hopn

lemma tries_held (hs : ServesJob n s) (h : s.held td = some f)
    (hdn : (td.hist.files f).done = false) : Tries n td (some f) td := by
  obtain ⟨hfl, hopn, hcls⟩ := held_eq_some h
  refine Tries.good (t := ⟨f, .succeeds, 0⟩) (hs.file f hfl) ?_
  unfold tryFile History.ensureOpen
  simp [hdn, hopn, hcls, bind, Except.bind, pure, Except.pure, noteError]

/-- **`get_next_file`** gives up because all files count as done, or else the service is at what it
    returns: a file of the job that is not done, or none. -/
lemma serveFile_spec (hs : ServesJob o.nrFiles s) (hfr : HeldFresh o.nrFiles td s)
    (h : td.serveFile o svc s m = .ok (res, td', s')) :
    o.nrFiles ≤ td.issue.nrDoneFiles ∧ res = none ∧ td' = td ∧ s' = s ∨
      td.issue.nrDoneFiles < o.nrFiles ∧ Chosen o.nrFiles td res td' s' := by
  unfold serveFile at h
  by_cases hful : o.nrFiles ≤ td.issue.nrDoneFiles
  · rw [if_pos hful] at h
    cases h
    exact .inl ⟨hful, rfl, rfl, rfl⟩
  · rw [if_neg hful] at h
    have hlt : td.issue.nrDoneFiles < o.nrFiles := by omega
    refine .inr ⟨hlt, ?_⟩
    have hpos : 0 < o.nrFiles := by omega
    cases hhl : s.held td with
    | none =>
      simp only [hhl] at h
      exact chooseFile_spec hs hpos h
    | some f =>
      simp only [hhl] at h
      have hdn : (td.hist.files f).done = false := by
        by_contra hcon
        exact hful (hfr f hhl (by simpa using hcon))
      have hgs := tries_held hs hhl hdn
      have hfl := (held_eq_some hhl).1
      split_ifs at h
      · cases h
        exact ⟨hgs, hfl, hs⟩
      · cases h
        exact ⟨hgs, hfl, hs.file, hs.next⟩
      · exact chooseFile_spec hs hpos h

end Td

end FioSsd
