import FioSsd.Backend.GetIoU
import FioSsd.History.Length

/-! # How long the history gets

With `verify_backlog` the I/O loop reads entries back between its writes, so that the history does
not grow. -/

namespace FioSsd

variable {failed got : Bool} {tries : List FileTry} {draw icdError icdError' : Nat} {res : Option FileId}

open List

variable {close : Int}

open History (SameButFiles Linked)

variable {k : Checksums} {hash : KeyHash} {o : ThreadOptions} {scale : Scale}
  {randMax : Nat} {noio : Bool} {td td' : Td} {u : Nat} {f : FileId} {m : Meets o}

namespace Td

/-- The entries and `last_ddir` are the same, and no unit was requeued. -/
structure Keeps (td td' : Td) : Prop where
  hist : SameButFiles td.hist td'.hist
  lastDdir : td'.issue.lastDdir = td.issue.lastDdir
  requeues : td'.ioURequeues.Sublist td.ioURequeues

lemma Keeps.refl (td : Td) : Keeps td td := ⟨.refl _, rfl, .refl _⟩

lemma Keeps.trans {td1 td2 td3 : Td} (a : Keeps td1 td2) (b : Keeps td2 td3) : Keeps td1 td3 :=
  ⟨a.hist.trans b.hist, b.lastDdir.trans a.lastDdir, b.requeues.trans a.requeues⟩

lemma Keeps.of_files {hist : History} (h : SameButFiles td.hist hist) :
    Keeps td { td with hist := hist } :=
  ⟨h, rfl, .refl _⟩

variable (td)

lemma setIoU_keeps (u : Nat) (ioU : IoU) : Keeps td (td.setIoU u ioU) :=
  ⟨.refl _, rfl, .refl _⟩

lemma tdVerror_keepsHist (err : Int) : Keeps td (td.tdVerror err) := by
  rw [tdVerror_eq]
  exact ⟨.refl _, rfl, .refl _⟩

lemma noteError_keeps (failed : Bool) (err : Int) : Keeps td (td.noteError failed err) := by
  unfold noteError
  split_ifs
  · exact tdVerror_keepsHist td err
  · exact .refl td

lemma linkFree_keeps (u : Nat) : Keeps td (td.linkFree u) :=
  ⟨.refl _, rfl, erase_sublist⟩

lemma handOver_keeps (u : Nat) : Keeps td (td.handOver u) :=
  ⟨.refl _, rfl, erase_sublist⟩

lemma putFile_sameButFiles {h h' : History} {ret : Int} (hr : h.putFile f close = .ok (ret, h'))
    : SameButFiles h h' := by
  unfold History.putFile at hr
  simp only at hr
  split_ifs at hr <;> obtain ⟨-, rfl⟩ := ok_pair hr <;> exact ⟨_, _, rfl⟩

variable {td}

lemma putFileLog_keepsHist (h : td.putFileLog f close = .ok td') : Keeps td td' := by
  obtain ⟨⟨ret, hist⟩, hput, h⟩ := of_bind h
  cases h
  have hfl : Keeps td { td with hist := hist } := .of_files (putFile_sameButFiles hput)
  split_ifs
  · exact hfl.trans (tdVerror_keepsHist _ _)
  · exact hfl

lemma putIoU_keepsHist (h : td.putIoU u close = .ok td') : Keeps td td' := by
  rcases putIoU_split h with ⟨-, rfl⟩ | ⟨f, td1, -, -, hput, rfl⟩
  · exact linkFree_keeps td u
  · exact (putFileLog_keepsHist hput).trans (linkFree_keeps td1 u)

lemma verifyIoUAsync_keepsHist (h : td.verifyIoUAsync u close = .ok td') : Keeps td td' := by
  rcases verifyIoUAsync_split h with ⟨-, rfl⟩ | ⟨f, td1, -, hput, rfl⟩
  · exact handOver_keeps td u
  · exact (putFileLog_keepsHist hput).trans (handOver_keeps td1 u)

lemma endIo_keepsHist {ret : Nat} (h : td.endIo k o u close = .ok (ret, td')) : Keeps td td' := by
  unfold endIo at h
  cases hend : (td.ioUs u).endIo with
  | none =>
    rw [hend] at h
    cases h
    exact .refl td
  | some handler =>
    rw [hend] at h
    cases handler with
    | verifyIoU =>
      obtain ⟨res, -, h⟩ := of_bind h
      cases h
      exact ⟨.refl _, rfl, .refl _⟩
    | verifyIoUAsync =>
      obtain ⟨td1, hasy, h⟩ := of_bind h
      cases h
      exact verifyIoUAsync_keepsHist hasy

lemma settleError_keepsHist (td : Td) (u icdError : Nat) :
    Keeps td (td.settleError o u icdError).2 := by
  unfold settleError
  simp only
  split_ifs
  · exact ⟨.refl _, rfl, .refl _⟩
  · exact .refl td

lemma ioULogError_keepsHist (td : Td) (u : Nat) : Keeps td (td.ioULogError u) := by
  unfold ioULogError
  split_ifs
  · exact tdVerror_keepsHist td _
  · exact .refl td

lemma tryFiles_keeps (h : td.tryFiles tries = .ok (res, td')) : Keeps td td' := by
  induction tries generalizing td with
  | nil =>
    obtain ⟨-, rfl⟩ := ok_pair h
    exact .refl td
  | cons t rest ih =>
    unfold tryFiles at h
    split_ifs at h
    · exact ih h
    · obtain ⟨⟨failed, hist⟩, hopn, h⟩ := of_bind h
      have hfl : Keeps td { td with hist := hist } :=
        .of_files (History.ensureOpen_sameButFiles hopn)
      have hnt := hfl.trans (noteError_keeps _ failed t.openError)
      simp only at h
      split_ifs at h
      · exact hnt.trans (ih h)
      · cases h
        exact hnt

lemma getNextFile_keeps (h : td.getNextFile o tries = .ok (res, td')) : Keeps td td' := by
  unfold getNextFile at h
  split_ifs at h
  · cases h
    exact .refl td
  · exact tryFiles_keeps h

lemma fileDone_keeps {pick : FilePick} (h : td.fileDone u f pick = .ok td') : Keeps td td' := by
  obtain ⟨td1, hput, h⟩ := of_bind h
  obtain ⟨td2, hcl, h⟩ := of_bind h
  cases h
  obtain ⟨⟨ret, hist⟩, hfl, hcl⟩ := of_bind hcl
  cases hcl
  have hmrk : SameButFiles td1.hist { td1.hist with
      files := Function.update td1.hist.files f { td1.hist.files f with closing := true } } :=
    ⟨_, _, rfl⟩
  have hdn : SameButFiles hist { hist with
      files := Function.update hist.files f { hist.files f with done := true } } := ⟨_, _, rfl⟩
  refine (putFileLog_keepsHist hput).trans ⟨?_, rfl, .refl _⟩
  exact (hmrk.trans (putFile_sameButFiles hfl)).trans hdn

lemma setIoUFile_keeps {picks : List FilePick}
    (h : td.setIoUFile o scale randMax noio u picks = .ok (failed, td')) : Keeps td td' := by
  induction picks generalizing td with
  | nil => exact absurd h (by simp [setIoUFile])
  | cons pick rest ih =>
    obtain ⟨⟨res, td1⟩, hnx, h⟩ := of_bind h
    have hfl := getNextFile_keeps hnx
    cases res with
    | none =>
      cases h
      exact hfl
    | some f =>
      obtain ⟨hist, hget, h⟩ := of_bind h
      obtain ⟨⟨dropped, s⟩, -, h⟩ := of_bind h
      have hfld : Keeps td1
          (({ td1 with hist := hist }.setIoU u { td1.ioUs u with file := some f }).afterFill u f s) :=
        ⟨(History.getFile_sameButFiles hget).trans ⟨_, _, rfl⟩, rfl, .refl _⟩
      simp only at h
      split_ifs at h
      · obtain ⟨td2, hdn, h⟩ := of_bind h
        exact ((hfl.trans hfld).trans (fileDone_keeps hdn)).trans (ih h)
      · cases h
        exact hfl.trans hfld

lemma setVersion_keeps (td : Td) (u : Nat) (now : FioUnique) : Keeps td (td.setVersion o u now) := by
  unfold setVersion
  split_ifs
  · exact ⟨.refl _, rfl, .refl _⟩
  · exact .refl td

lemma prepareRw_keeps (h : td.prepareRw o k u f m = .ok td') : Keeps td td' := by
  unfold prepareRw prepareWrite at h
  have hnt : Keeps td (td.notePos f (td.ioUs u)) := ⟨⟨_, _, rfl⟩, rfl, .refl _⟩
  split_ifs at h
  · obtain ⟨ioU, -, h⟩ := of_bind h
    cases h
    exact (hnt.trans (setVersion_keeps _ u m.now)).trans (setIoU_keeps _ u ioU)
  · cases h
    exact hnt
  · cases h
    exact .refl td

lemma newRequest_keeps
    (h : td.newRequest o k scale randMax noio u m = .ok (failed, td')) : Keeps td td' := by
  obtain ⟨⟨failed1, td1⟩, hset, h⟩ := of_bind h
  have hkp := setIoUFile_keeps hset
  simp only at h
  split_ifs at h
  · cases h
    exact hkp
  · cases hfl : (td1.ioUs u).file with
    | none => simp [hfl] at h
    | some f =>
      simp only [hfl] at h
      unfold finishRequest at h
      simp only at h
      split_ifs at h
      · cases h
        exact hkp
      · obtain ⟨td2, hprp, h⟩ := of_bind h
        cases h
        exact (hkp.trans (prepareRw_keeps hprp)).trans (setIoU_keeps _ u _)

/-- Between two rounds: at most `n` entries, and if there are as many the next call of `get_io_u` reads
    one back. -/
structure AtHead (n : Nat) (td : Td) : Prop where
  linked : ∃ A, Linked A td.hist
  len : td.hist.ioHistLen ≤ n
  full : td.hist.ioHistLen = n → td.issue.lastDdir ≠ .read ∧ td.ioURequeues = []
  requeues : td.ioURequeues.length ≤ 1

structure Below (n : Nat) (td : Td) : Prop where
  linked : ∃ A, Linked A td.hist
  len : td.hist.ioHistLen < n
  requeues : td.ioURequeues = []

variable {n : Nat}

lemma AtHead.keeps (hhd : AtHead n td) (h : Keeps td td') : AtHead n td' := by
  obtain ⟨A, hl⟩ := hhd.linked
  have hlen := h.hist.len
  refine ⟨⟨A, hl.of_sameButFiles h.hist⟩, by rw [hlen]; exact hhd.len, fun heq => ?_,
    h.requeues.length_le.trans hhd.requeues⟩
  obtain ⟨hddi, hemp⟩ := hhd.full (hlen ▸ heq)
  exact ⟨by rw [h.lastDdir]; exact hddi, sublist_nil.1 (hemp ▸ h.requeues)⟩

lemma Below.keeps (h : Below n td) (hkp : Keeps td td') : Below n td' := by
  obtain ⟨A, hl⟩ := h.linked
  exact ⟨⟨A, hl.of_sameButFiles hkp.hist⟩, by rw [hkp.hist.len]; exact h.len,
    sublist_nil.1 (h.requeues ▸ hkp.requeues)⟩

lemma Below.atHead (h : Below n td) : AtHead n td :=
  ⟨h.linked, le_of_lt h.len, fun heq => absurd heq (ne_of_lt h.len), by simp [h.requeues]⟩

lemma checkGetVerify_spec (hlnk : ∃ A, Linked A td.hist)
    (h : td.checkGetVerify o u m = .ok (got, td')) :
    (∃ A, Linked A td'.hist) ∧ td'.hist.ioHistLen ≤ td.hist.ioHistLen ∧
      td'.ioURequeues.Sublist td.ioURequeues ∧
      (0 < o.verifyBacklog → td.hist.ioHistLen = o.verifyBacklog → td.issue.lastDdir ≠ .read →
        (td.ioUs u).file = none → td'.hist.ioHistLen < td.hist.ioHistLen) := by
  unfold checkGetVerify at h
  split_ifs at h with hstr
  · obtain ⟨⟨failed, ioU, hist⟩, hnx, h⟩ := of_bind h
    cases h
    obtain ⟨A, hl⟩ := hlnk
    obtain ⟨⟨A', hl'⟩, hlen⟩ := hl.getNextVerify hnx
    have hnt := noteError_keeps ({ td with hist := hist }.setIoU u ioU) failed m.openError
    have hnon : 0 ≤ td.hist.ioHistLen := by rw [hl.len]; omega
    refine ⟨⟨A', hl'.of_sameButFiles hnt.hist⟩, le_of_eq_of_le hnt.hist.len ?_, hnt.requeues,
      fun hpos hful _ hfl => lt_of_eq_of_lt hnt.hist.len ?_⟩
    · change hist.ioHistLen ≤ _
      rw [hlen]
      split_ifs <;> omega
    · change hist.ioHistLen < _
      rw [hlen, if_neg (by simp [hfl]; omega)]
      omega
  · cases h
    refine ⟨hlnk, le_rfl, .refl _, fun hpos hful hddi _ => absurd ?_ hstr⟩
    exact ⟨hpos.ne', by omega, by simp [startsBatch, hful, hddi]⟩

lemma checkGetTrim_spec (h : Below n td) (hr : td.checkGetTrim o u m = .ok (got, td'))
    : Below n td' := by
  unfold checkGetTrim at hr
  split_ifs at hr
  · obtain ⟨⟨failed, ioU, hist⟩, hnx, hr⟩ := of_bind hr
    cases hr
    obtain ⟨A, hl⟩ := h.linked
    obtain ⟨hl', hlen⟩ := hl.getNextTrim hnx
    have hbl' : Below n ({ td with hist := hist }.setIoU u ioU) :=
      ⟨⟨A, hl'⟩, lt_of_le_of_lt hlen h.len, h.requeues⟩
    have hnt := hbl'.keeps (noteError_keeps _ failed m.openError)
    exact ⟨hnt.linked, hnt.len, hnt.requeues⟩
  · cases hr
    exact h

lemma chooseRequest_spec {origin : Option Origin} (hpos : 0 < o.verifyBacklog)
    (hlnk : ∃ A, Linked A td.hist) (hrqs : td.ioURequeues = [])
    (hlen : td.hist.ioHistLen ≤ o.verifyBacklog) (hful : td.hist.ioHistLen = o.verifyBacklog →
      td.issue.lastDdir ≠ .read ∧ (td.ioUs u).file = none)
    (h : td.chooseRequest o k scale randMax noio u m = .ok (origin, td')) :
    Below o.verifyBacklog td' := by
  obtain ⟨⟨got, td1⟩, hvrf, h⟩ := of_bind h
  obtain ⟨hln1, hle, hrq1, hls⟩ := checkGetVerify_spec hlnk hvrf
  have hbl1 : Below o.verifyBacklog td1 := by
    refine ⟨hln1, ?_, sublist_nil.1 (hrqs ▸ hrq1)⟩
    rcases lt_or_eq_of_le hlen with hlt | heq
    · exact lt_of_le_of_lt hle hlt
    · obtain ⟨hddi, hfl⟩ := hful heq
      exact lt_of_lt_of_eq (hls hpos heq hddi hfl) heq
  simp only at h
  split_ifs at h
  · cases h
    exact hbl1
  · obtain ⟨⟨trims, td2⟩, htr, h⟩ := of_bind h
    have hbl2 := checkGetTrim_spec hbl1 htr
    split_ifs at h
    · cases h
      exact hbl2
    · cases h
      exact hbl2
    · obtain ⟨⟨failed, td3⟩, hnew, h⟩ := of_bind h
      cases h
      exact hbl2.keeps (newRequest_keeps hnew)

lemma AtHead.getReadyIoU {origin : Origin} (hpos : 0 < o.verifyBacklog)
    (hhd : AtHead o.verifyBacklog td)
    (h : td.getReadyIoU o k scale randMax noio m = .ok (some (u, origin), td')) :
    Below o.verifyBacklog td' := by
  obtain ⟨⟨res, td2⟩, hwt, h⟩ := of_bind h
  cases res with
  | none => cases h
  | some v =>
    obtain ⟨⟨chosen, td3⟩, hchs, h⟩ := of_bind h
    obtain ⟨td1, ⟨hhs, his, hqu⟩, hget⟩ := getIoUWait_rely
      (I := fun t => t.hist = td.hist ∧ t.issue = td.issue ∧ t.ioURequeues = td.ioURequeues)
      (fun hI hrl => ⟨hrl.hist.trans hI.1, hrl.issue.trans hI.2.1,
        hrl.requeues.trans hI.2.2⟩) ⟨rfl, rfl, rfl⟩ hwt
    obtain ⟨hhs2, his2, hqu2, hbl⟩ := getIoU_spec hget
    rw [hhs] at hhs2
    rw [hqu] at hqu2 hbl
    have hemp : td2.ioURequeues = [] := by
      rw [hqu2]
      exact length_eq_zero_iff.1 (by have := hhd.requeues; simp; omega)
    have hbel : Below o.verifyBacklog td3 := by
      refine chooseRequest_spec hpos (hhs2 ▸ hhd.linked) hemp (hhs2 ▸ hhd.len) (fun heq => ?_) hchs
      rw [hhs2] at heq
      obtain ⟨hddi, hno⟩ := hhd.full heq
      exact ⟨by rw [his2, his]; exact hddi, hbl hno⟩
    cases chosen with
    | none =>
      obtain ⟨td4, -, h⟩ := of_bind h
      cases h
    | some origin' =>
      unfold prepIoU at h
      simp only at h
      split_ifs at h
      · obtain ⟨td4, -, h⟩ := of_bind h
        cases h
      · cases h
        exact hbel

/-- What becomes of the unit by the end of a round of `do_io` with `iodepth=1`: it completes, it
    waits on the requeue list, or it is put back after an error. -/
inductive UnitEnd
  | completes (ioU : IoU) (icdError : Nat) (close : Int) (draw : Nat)
  | requeued (ioU : IoU)
  | dropped (ioU : IoU) (close : Int)

variable (k hash o) in
def finish (td : Td) (u : Nat) : UnitEnd → Except Fault Td
  | .completes ioU icdError close draw => do
    return (← (td.setIoU u ioU).completeIoU k hash o u icdError close draw).2
  | .requeued ioU => .ok ((td.setIoU u ioU).requeueIoU u)
  | .dropped ioU close => (td.setIoU u ioU).clearIoU u close

variable (o) in
def HasRoom (td : Td) : UnitEnd → Prop
  | .completes ioU _ _ _ => ioU.ddir = .write → History.Room o o.verifyBacklog td.hist ioU
  | _ => True

lemma Below.rwCompleted (h : Below n td) (hddi : td.issue.lastDdir = (td.ioUs u).ddir)
    (hrm : (td.ioUs u).ddir = .write → History.Room o n td.hist (td.ioUs u))
    (hr : td.rwCompleted k hash o u icdError close draw = .ok (icdError', td')) : AtHead n td' := by
  obtain ⟨hist, hlog, hr⟩ := of_bind hr
  obtain ⟨⟨ret, td1⟩, hend, hr⟩ := of_bind hr
  obtain rfl := congrArg Prod.snd (Except.ok.inj hr)
  suffices hhd : AtHead n { td with hist := hist } from
    (hhd.keeps (endIo_keepsHist hend)).keeps (settleError_keepsHist td1 u _)
  unfold logWrite at hlog
  split_ifs at hlog with hlgd
  · have hwr : (td.ioUs u).ddir = .write := by
      simp only [Bool.and_eq_true, decide_eq_true_eq] at hlgd
      exact hlgd.1.1.2
    obtain ⟨A, hl⟩ := h.linked
    refine ⟨⟨A, hl.logIoPiece hlog⟩, hl.logIoPiece_len (hrm hwr) h.len hlog, fun _ => ?_,
      by simp [h.requeues]⟩
    exact ⟨by simp [hddi, hwr], h.requeues⟩
  · cases hlog
    exact h.atHead

lemma Below.completeIoU (h : Below n td)
    (hrm : (td.ioUs u).ddir = .write → History.Room o n td.hist (td.ioUs u))
    (hr : td.completeIoU k hash o u icdError close draw = .ok (icdError', td')) : AtHead n td' := by
  obtain ⟨⟨e, td1⟩, hcmp, hr⟩ := of_bind hr
  have hhd : AtHead n td1 := by
    unfold ioCompleted landed at hcmp
    simp only at hcmp
    have hun : (td.land u).ioUs u = { td.ioUs u with flight := false, busyOk := false } := by
      simp [land, setIoU]
    have hlnd : Below n (td.land u) := ⟨h.linked, h.len, h.requeues⟩
    have hnx : Below n ((td.land u).setLastDdir ((td.land u).ioUs u).ddir) :=
      ⟨h.linked, h.len, h.requeues⟩
    split_ifs at hcmp
    · cases hcmp
      exact hlnd.atHead
    · refine hnx.rwCompleted rfl (fun hwr => ?_) hcmp
      simp only [setLastDdir_ioUs, hun] at hwr ⊢
      exact hrm hwr
    · obtain rfl : _ = td1 := congrArg Prod.snd (Except.ok.inj hcmp)
      exact (hnx.keeps (ioULogError_keepsHist _ u)).atHead.keeps (settleError_keepsHist _ u _)
    · obtain rfl := congrArg Prod.snd (Except.ok.inj hcmp)
      exact hnx.atHead.keeps (settleError_keepsHist _ u _)
  simp only at hr
  split_ifs at hr
  · cases hr
    exact hhd
  · obtain ⟨td2, hput, hr⟩ := of_bind hr
    cases hr
    exact hhd.keeps (putIoU_keepsHist hput)

lemma Below.finish {e : UnitEnd} (h : Below o.verifyBacklog td) (hrm : HasRoom o td e)
    (hr : td.finish k hash o u e = .ok td') : AtHead o.verifyBacklog td' := by
  cases e with
  | completes ioU icdError close draw =>
    obtain ⟨⟨e, td1⟩, hcmp, hr⟩ := of_bind hr
    cases hr
    have hset := h.keeps (setIoU_keeps td u ioU)
    refine hset.completeIoU (fun hwr => ?_) hcmp
    simp only [setIoU, Function.update_self] at hwr ⊢
    exact hrm hwr
  | requeued ioU =>
    cases hr
    refine ⟨h.linked, le_of_lt h.len, fun heq => absurd heq (ne_of_lt h.len), ?_⟩
    simp [requeueIoU, unlink, setIoU, h.requeues]
  | dropped ioU close =>
    have hclr := setIoU_keeps (td.setIoU u ioU) u { (td.setIoU u ioU).ioUs u with flight := false }
    exact ((h.keeps (setIoU_keeps td u ioU)).keeps (hclr.trans (putIoU_keepsHist hr))).atHead

variable (k hash o scale randMax noio) in
/-- The rounds of the I/O loop with one unit, each of which ends as `P` allows. -/
inductive Rounds (P : Td → UnitEnd → Prop) (start : Td) : Td → Prop
  | start : Rounds P start start
  | round {td₁ td₂ td₃ td₄ td₅ : Td} {m : Meets o} {u : Nat} {origin : Origin} {e : UnitEnd} :
      Rounds P start td₁ → Keeps td₁ td₂ →
      td₂.getReadyIoU o k scale randMax noio m = .ok (some (u, origin), td₃) → Keeps td₃ td₄ →
      P td₄ e → td₄.finish k hash o u e = .ok td₅ → Rounds P start td₅

structure Starts (td : Td) : Prop where
  linked : ∃ A, Linked A td.hist
  len : td.hist.ioHistLen = 0
  requeues : td.ioURequeues = []

lemma Rounds.atHead {start : Td} (hpos : 0 < o.verifyBacklog) (h : Starts start)
    (hr : Rounds k hash o scale randMax noio (HasRoom o) start td) : AtHead o.verifyBacklog td := by
  induction hr with
  | start =>
    have hbl : Below o.verifyBacklog start :=
      ⟨h.linked, by rw [h.len]; exact_mod_cast hpos, h.requeues⟩
    exact hbl.atHead
  | round _ hpre hget hps hrm hfns ih =>
    exact (((ih.keeps hpre).getReadyIoU hpos hget).keeps hps).finish hrm hfns

/-- **The backlog bounds the history.** If every write that completes has room, `get_io_u` hands out a
    unit only while fewer entries than the backlog wait to be verified. -/
theorem getReadyIoU_below_backlog {start : Td} {origin : Origin} (hpos : 0 < o.verifyBacklog)
    (hstart : Starts start) (hrun : Rounds k hash o scale randMax noio (HasRoom o) start td)
    (hget : td.getReadyIoU o k scale randMax noio m = .ok (some (u, origin), td')) :
    td'.hist.ioHistTree.length + td'.hist.ioHistList.length < o.verifyBacklog := by
  have hbl := (hrun.atHead hpos hstart).getReadyIoU hpos hget
  obtain ⟨A, hl⟩ := hbl.linked
  have hlen := hbl.len
  rw [hl.len] at hlen
  exact_mod_cast hlen

def backlogOptions : ThreadOptions := { defaultOptions with
  ddirRead := false, ddirWrite := true, ddirRand := true, maxBs := 16384, verify := .verifyNull
  verifyBacklog := 2, randomagain := true }

def backlogJob : Td := {
  ioUFreelist := [0]
  hist := { files := fun _ => {
    realFileSize := 65536, ioSize := 65536, fileMap := some fun _ => 0, numMaps := 1
    fileMap2 := ⟨2, two_words_lt, fun _ => .empty⟩, isOpen := true, fdOpen := true, references := 1 } } }

lemma backlogJob_starts : Starts backlogJob := by
  refine ⟨⟨[], ?_⟩, rfl, rfl⟩
  have hno : ∀ {p ipo}, backlogJob.hist.heap p = some ipo → False := fun hipo =>
    absurd hipo (by simp [backlogJob])
  exact ⟨fun hipo => (hno hipo).elim, fun hipo => (hno hipo).elim, nodup_nil, rfl,
    fun _ hp => absurd hp not_mem_nil, fun _ hp => absurd hp not_mem_nil, nodup_nil,
    rfl, fun _ _ hp => absurd hp not_mem_nil, fun _ => nodup_nil⟩

/-- A call of `get_io_u` that makes a write, for the draws of its block and its length. -/
def drawsWrite (block size : Nat) : Meets backlogOptions where
  waits := []
  verifyOpened := .succeeds
  trimOpened := .succeeds
  openError := 0
  picks := [⟨[⟨0, .succeeds, 0⟩], ⟨.write, false, ⟨fun _ => block, fun _ => 0⟩, [size]⟩, 0, 0⟩]
  now := ⟨0, 0⟩
  info := ⟨0, 0, 0, 0⟩
  seed := 0
  prepFails := false
  close := 0

def getsWrite (td : Td) (block size : Nat) : Except Fault (Option (Nat × Origin) × Td) :=
  td.getReadyIoU backlogOptions sumChecksums exactScale (2 ^ 32 - 1) false (drawsWrite block size)

def wholeTransfer (td : Td) : UnitEnd := .completes { td.ioUs 0 with flight := true } 0 0 0

def completesWhole (td : Td) : Except Fault Td :=
  td.finish sumChecksums (fun _ => 0) backlogOptions 0 (wholeTransfer td)

abbrev BacklogRounds (P : Td → UnitEnd → Prop) (td : Td) : Prop :=
  Rounds sumChecksums (fun _ => 0) backlogOptions exactScale (2 ^ 32 - 1) false P backlogJob td

theorem getReadyIoU_below_backlog_second :
    ∃ td td', BacklogRounds (HasRoom backlogOptions) td ∧
      getsWrite td 0 0 = .ok (some (0, .generated), td') ∧ td'.hist.ioHistList.length = 1 ∧
      td'.hist.ioHistTree.length + td'.hist.ioHistList.length < backlogOptions.verifyBacklog := by
  obtain ⟨td1, hget, hfl, hblk, hlen, td, hfns, td', hgt', hone⟩ :
      ∃ td1, getsWrite backlogJob 0 (2 ^ 32 - 1) = .ok (some (0, .generated), td1) ∧
        (td1.ioUs 0).file = some 0 ∧
        History.blockOf backlogOptions (td1.hist.files 0) (td1.ioUs 0) = 0 ∧ td1.hist.ioHistLen = 0 ∧
      ∃ td, completesWhole td1 = .ok td ∧
      ∃ td', getsWrite td 0 0 = .ok (some (0, .generated), td') ∧ td'.hist.ioHistList.length = 1 := by
    decide +kernel
  have hrm : HasRoom backlogOptions td1 (wholeTransfer td1) := by
    intro _ f hf _
    cases hfl.symm.trans hf
    change History.blockOf backlogOptions (td1.hist.files 0) (td1.ioUs 0) < _ ∧ _
    exact ⟨by rw [hblk]; decide, .inl (by rw [hlen]; decide)⟩
  have hr : BacklogRounds (HasRoom backlogOptions) td :=
    .round .start (.refl _) hget (.refl _) hrm hfns
  exact ⟨td, td', hr, hgt', hone, getReadyIoU_below_backlog (by decide) backlogJob_starts hr hgt'⟩

set_option synthInstance.maxSize 500 in
/-- The second write falls into the first one and splits it: the history has three entries, which is no
    multiple of two, and `get_io_u` hands out a third write. -/
theorem getReadyIoU_passes_backlog :
    Starts backlogJob ∧ ∃ td td', BacklogRounds (fun _ _ => True) td ∧
      getsWrite td 0 0 = .ok (some (0, .generated), td') ∧ (td'.ioUs 0).ddir = .write ∧
      backlogOptions.verifyBacklog < td'.hist.ioHistTree.length + td'.hist.ioHistList.length := by
  refine ⟨backlogJob_starts, ?_⟩
  obtain ⟨td1, hgt1, td2, hfn1, td3, hgt3, td, hfn3, td', hgt', hwr, hln⟩ :
      ∃ td, getsWrite backlogJob 0 (2 ^ 32 - 1) = .ok (some (0, .generated), td) ∧
      ∃ td', completesWhole td = .ok td' ∧
      ∃ td, getsWrite td' (2 ^ 32 / 15 + 1) 0 = .ok (some (0, .generated), td) ∧
      ∃ td', completesWhole td = .ok td' ∧
      ∃ td, getsWrite td' 0 0 = .ok (some (0, .generated), td) ∧ (td.ioUs 0).ddir = .write ∧
        2 < td.hist.ioHistTree.length + td.hist.ioHistList.length := by decide +kernel
  refine ⟨td, td', ?_, hgt', hwr, hln⟩
  exact .round (.round .start (.refl _) hgt1 (.refl _) trivial hfn1) (.refl _) hgt3 (.refl _)
    trivial hfn3

end Td

end FioSsd
