import FioSsd.History.Prune
import FioSsd.History.Tree
import FioSsd.History.Unlink

/-! # The trim queue

A piece that `log_io_piece` draws for trimming is on the trim list and on the tree or the list of
the history at once, and four functions free it: the write that replaces it, `get_next_trim`,
`get_next_verify` and `prune_io_piece_log`. -/

namespace FioSsd.History

variable {hash : KeyHash} {o : ThreadOptions} {A : List Nat} {h h' : History} {p r : Nat}
  {ipo : IoPiece} {ioU : IoU} {f : FileId} {α β : Type}

def Meets (run : Except Fault α) (Q : α → Prop) : Prop :=
  match run with
  | .ok a => Q a
  | .error fault => fault ≠ .badPointer

variable {run : Except Fault α}

lemma Meets.bind {next : α → Except Fault β} {P : α → Prop} {Q : β → Prop}
    (h : Meets run P) (hnx : ∀ a, run = .ok a → P a → Meets (next a) Q) :
    Meets (run >>= next) Q := by
  cases run with
  | ok a => exact hnx a rfl h
  | error fault => exact h

lemma Meets.imp {P Q : α → Prop} (h : Meets run P)
    (himp : ∀ a, run = .ok a → P a → Q a) : Meets run Q := by
  cases run with
  | ok a => exact himp a rfl h
  | error fault => exact h

lemma Meets.of_eq {a : α} (h : run = .ok a) : Meets run (a = ·) := by
  rw [h]
  exact rfl

lemma deref_meets (hhp : h.heap p = some ipo) : Meets (h.deref p) (ipo = ·) :=
  .of_eq (deref_of_heap hhp)

lemma removeTrimEntry_meets (hhp : h.heap p = some ipo) :
    Meets (h.removeTrimEntry p) fun h' => h'.iohistHash = h.iohistHash ∧ ∃ ipo', h'.heap p = some ipo' := by
  refine (deref_meets hhp).bind ?_
  rintro _ - rfl
  split_ifs
  · exact ⟨rfl, _, Function.update_self ..⟩
  · exact ⟨rfl, _, hhp⟩

lemma getFile_meets : Meets (h.getFile f) (SameButFiles h) := by
  unfold getFile
  simp only []
  split_ifs
  · exact ⟨_, _, rfl⟩
  · exact (nomatch ·)

lemma ensureOpen_meets :
    Meets (h.ensureOpen f .succeeds) fun r => r.1 = false ∧ SameButFiles h r.2 := by
  unfold ensureOpen tdIoOpenFile
  simp only []
  split_ifs
  · exact ⟨rfl, .refl h⟩
  · exact (nomatch ·)
  · refine getFile_meets.bind fun h1 _ heq => ⟨rfl, ?_⟩
    obtain ⟨files, n, rfl⟩ := heq
    exact ⟨_, _, rfl⟩

lemma Linked.treeInsert_meets {fuel : Nat} : ∀ {h : History}, Linked (p :: A) h →
    Meets (History.treeInsert p fuel h) fun _ => True := by
  induction fuel with
  | zero => exact fun _ hcon => nomatch hcon
  | succ fuel ih =>
    intro h hl
    obtain ⟨ipo, hipo, -⟩ := hl.piece p (.head _)
    have hal : ∀ q ∈ h.ioHistTree, ∃ node, h.heap q = some node := fun q hq => hl.tree_alive hq
    refine (deref_meets hipo).bind ?_
    rintro _ - rfl
    rcases treeFind_spec ipo hal with ⟨q, old, hfn, hq, hold, -⟩ | ⟨hfn, -⟩
    · refine (Meets.of_eq hfn).bind ?_
      rintro _ - rfl
      refine (deref_meets hold).bind ?_
      rintro _ - rfl
      split_ifs
      · refine (removeTrimEntry_meets (by exact hold)).bind fun h1 hrmv _ => ?_
        rw [hl.removeTrimEntry_freePiece hq hrmv]
        exact ih (hl.drop (List.mem_append_left _ hq) hold (hl.tree_not_hashed hq hold))
      · exact (nomatch ·)
    · obtain ⟨tree, htr⟩ := treeLink_ok p ipo hal
      refine (Meets.of_eq hfn).bind ?_
      rintro _ - rfl
      exact (Meets.of_eq htr).bind fun _ _ _ => trivial

lemma Linked.linkPiece_meets (hl : Linked (p :: A) h) :
    Meets (h.linkPiece o p f) fun _ => True := by
  unfold History.linkPiece
  split_ifs
  · exact hl.treeInsert_meets
  · obtain ⟨ipo, hipo, -⟩ := hl.piece p (.head _)
    exact (deref_meets hipo).bind fun _ _ _ => trivial

structure Tidy (h : History) : Prop where
  linked : Linked [] h
  table : ∀ b, h.iohistHash b = []

lemma Tidy.not_hashed (ht : Tidy h) (hipo : h.heap p = some ipo) : ipo.hashed = false := by
  have hln := ht.linked.links (ht.linked.owned hipo) hipo
  rw [hln.hashed, Option.isSome_eq_false_iff, Option.isNone_iff_eq_none]
  by_contra hne
  obtain ⟨b, hb⟩ := Option.ne_none_iff_exists'.1 hne
  exact absurd ((hln.bucket b).2 hb) (by simp [ht.table])

lemma Tidy.logIoPiece (ht : Tidy h) (hf : ioU.file = some f) (hpl : ¬OnSegments o h.files ioU) :
    Meets (h.logIoPiece hash o ioU r) Tidy := by
  have hl := ht.linked
  have hnew : h.nextAddr ∉ h.trimList := fun hcon =>
    hl.not_mem_of_fresh le_rfl (hl.trimMem _ hcon)
  have hsf : Meets (h.logIoPiece hash o ioU r) fun _ => True := by
    rw [logIoPiece_bytes hf (by simpa using fun hseg => hpl ⟨f, hf, hseg⟩)]
    exact ((hl.newPiece _ _).drawTrim (Function.update_self ..) hnew).linkPiece_meets
  refine hsf.imp fun h' hr _ => ⟨hl.logIoPiece hr, fun b => ?_⟩
  rw [(logIoPiece_plain hpl hr).table]
  exact ht.table b

lemma Tidy.takeNext (ht : Tidy h) : Meets (h.takeNext o) fun r => r.2.iohistHash = h.iohistHash := by
  have hal : ∀ p ∈ h.ioHistTree ++ h.ioHistList, ∃ ipo, h.heap p = some ipo := fun p hp => by
    obtain ⟨ipo, hipo, -⟩ := ht.linked.piece p hp
    exact ⟨ipo, hipo⟩
  unfold History.takeNext
  cases htr : h.ioHistTree with
  | cons p rest =>
    obtain ⟨ipo, hipo⟩ := hal p (by simp [htr])
    refine (deref_meets hipo).bind ?_
    rintro _ - rfl
    split_ifs
    · exact rfl
    · exact (nomatch ·)
  | nil =>
    cases hls : h.ioHistList with
    | nil => exact rfl
    | cons p rest =>
      obtain ⟨ipo, hipo⟩ := hal p (by simp [hls])
      refine (deref_meets hipo).bind ?_
      rintro _ - rfl
      simp only [ht.not_hashed hipo, Bool.false_eq_true, if_false]
      split_ifs
      · exact rfl
      · exact (nomatch ·)

lemma Linked.fillVerify_meets (hl : Linked (p :: A) { h with ioHistLen := h.ioHistLen - 1 }) :
    Meets (h.fillVerify o p ioU .succeeds) fun r =>
      Linked A r.2.2 ∧ r.2.2.iohistHash = h.iohistHash := by
  obtain ⟨ipo, hipo, -⟩ := hl.piece p (.head _)
  refine (deref_meets hipo).bind ?_
  rintro _ - rfl
  refine ensureOpen_meets.bind ?_
  rintro ⟨_, h1⟩ - ⟨rfl, heq1⟩
  refine getFile_meets.bind fun h2 _ heq2 => ?_
  by_cases hiso : (h2.files ipo.file).isOpen
  · rw [if_pos hiso]
    have hl2 := hl.of_sameButFiles (heq1.trans heq2)
    obtain ⟨files, n, rfl⟩ := heq1.trans heq2
    refine (removeTrimEntry_meets (by exact hipo)).bind fun h3 hrmv htb => ?_
    exact ⟨hl2.freeAside hrmv, htb.1⟩
  · rw [if_neg hiso]
    exact (nomatch ·)

lemma Tidy.getNextVerify (ht : Tidy h) :
    Meets (h.getNextVerify o ioU .succeeds) fun r => Tidy r.2.2 := by
  unfold History.getNextVerify
  split_ifs
  · exact ht
  refine ht.takeNext.bind ?_
  rintro ⟨next, h1⟩ htk htb
  rcases ht.linked.takeNext htk with ⟨rfl, rfl, -⟩ | ⟨p, rfl, -, hl1⟩
  · exact ht
  · refine hl1.fillVerify_meets.imp fun r _ hr => ⟨hr.1, fun b => ?_⟩
    rw [hr.2, htb]
    exact ht.table b

lemma Tidy.getNextTrim (ht : Tidy h) :
    Meets (h.getNextTrim o ioU .succeeds) fun r => Tidy r.2.2 := by
  have hsf : Meets (h.getNextTrim o ioU .succeeds) fun r => r.2.2.iohistHash = h.iohistHash := by
    unfold History.getNextTrim
    by_cases hfl : ioU.file.isSome
    · rw [if_pos hfl]
      exact rfl
    rw [if_neg hfl]
    cases hls : h.trimList with
    | nil => exact rfl
    | cons p rest =>
      by_cases h0 : h.trimEntries = 0
      · simp only [if_pos h0]
        exact (nomatch ·)
      simp only [if_neg h0]
      obtain ⟨ipo, hipo, -⟩ := ht.linked.piece p (ht.linked.trimMem p (by simp [hls]))
      refine (removeTrimEntry_meets hipo).bind ?_
      rintro h1 - ⟨htb, ipo', hip'⟩
      refine (deref_meets hip').bind ?_
      rintro _ - rfl
      have htr : Meets (h1.trimPiece o p ipo') fun h2 => h2.iohistHash = h1.iohistHash := by
        unfold History.trimPiece
        split_ifs
        · exact rfl
        · exact rfl
        · exact rfl
        · exact (nomatch ·)
      refine htr.bind fun h2 _ htb2 => ensureOpen_meets.bind ?_
      rintro ⟨_, h3⟩ - ⟨rfl, heq3⟩
      refine getFile_meets.bind fun h4 _ heq4 => ?_
      split_ifs
      · obtain ⟨files, n, rfl⟩ := heq3.trans heq4
        exact htb2.trans htb
      · exact (nomatch ·)
  refine hsf.imp fun r hr htb => ⟨(ht.linked.getNextTrim hr).1, fun b => ?_⟩
  rw [htb]
  exact ht.table b

inductive HistCall
  | log (ioU : IoU) (r : Nat)
  | verify (ioU : IoU)
  | trim (ioU : IoU)
  | prune

def call (hash : KeyHash) (o : ThreadOptions) (h : History) : HistCall → Except Fault History
  | .log ioU r => h.logIoPiece hash o ioU r
  | .verify ioU => do
    let (_, _, h) ← h.getNextVerify o ioU .succeeds
    return h
  | .trim ioU => do
    let (_, _, h) ← h.getNextTrim o ioU .succeeds
    return h
  | .prune => h.pruneIoPieceLog

def Allowed (o : ThreadOptions) (h : History) : HistCall → Prop
  | .log ioU _ => ioU.file.isSome = true ∧ ¬OnSegments o h.files ioU
  | _ => True

/-- The histories of the runs from `h₀` on. -/
inductive Reached (hash : KeyHash) (o : ThreadOptions) (h₀ : History) : History → Prop
  | start : Reached hash o h₀ h₀
  | step {h h' : History} {c : HistCall} : Reached hash o h₀ h → Allowed o h c →
      call hash o h c = .ok h' → Reached hash o h₀ h'

lemma Tidy.call (ht : Tidy h) {c : HistCall} (halw : Allowed o h c) :
    Meets (call hash o h c) Tidy := by
  cases c with
  | log ioU r =>
    obtain ⟨f, hf⟩ := Option.isSome_iff_exists.1 halw.1
    exact ht.logIoPiece hf halw.2
  | verify ioU => exact ht.getNextVerify.bind fun _ _ hr => hr
  | trim ioU => exact ht.getNextTrim.bind fun _ _ hr => hr
  | prune =>
    refine (Meets.of_eq (pruneIoPieceLog_spec ht.linked)).imp ?_
    rintro _ - rfl
    have hbck : ∀ b, h.pruned.iohistHash b = [] := ht.table
    exact ⟨⟨by simp [pruned], by simp [pruned], List.nodup_nil, rfl, by simp [members, pruned],
      by simp [pruned], List.nodup_nil, rfl, by simp [hbck], by simp [hbck]⟩, ht.table⟩

lemma Reached.tidy {h0 : History} (ht : Tidy h0) (hrch : Reached hash o h0 h) : Tidy h := by
  induction hrch with
  | start => exact ht
  | step _ halw hr ih =>
    have hmt : Meets (call hash o _ _) Tidy := ih.call halw
    rw [hr] at hmt
    exact hmt

/-- **The trim queue refers to live history only**: its entries are distinct pieces on the tree or
    the list, both counters are right, and no call follows a pointer to a freed piece. -/
theorem trimQueue_live {h₀ : History} (hunused : Unused h₀) (hreached : Reached hash o h₀ h) :
    h.trimList.Nodup ∧ (∀ p ∈ h.trimList, p ∈ h.ioHistTree ++ h.ioHistList) ∧
      h.trimEntries = h.trimList.length ∧ (h.ioHistTree ++ h.ioHistList).Nodup ∧
      (∀ p, (∃ ipo, h.heap p = some ipo) ↔ p ∈ h.ioHistTree ++ h.ioHistList) ∧
      h.ioHistLen = (h.ioHistTree ++ h.ioHistList).length ∧
      ∀ c, Allowed o h c → call hash o h c ≠ .error .badPointer := by
  have ht := hreached.tidy ⟨hunused.linked, hunused.buckets⟩
  have hl := ht.linked
  refine ⟨hl.trimNodup, hl.trimMem, hl.trimLen, hl.nodup, fun p => ⟨?_, fun hp => ?_⟩, ?_,
    fun c halw hcon => ?_⟩
  · rintro ⟨ipo, hipo⟩
    exact hl.owned hipo
  · obtain ⟨ipo, hipo, -⟩ := hl.piece p hp
    exact ⟨ipo, hipo⟩
  · rw [hl.len, List.length_append]
    rfl
  · have hmt : Meets (call hash o h c) Tidy := ht.call halw
    rw [hcon] at hmt
    exact hmt rfl

theorem trimQueue_live_write : ∃ h, Reached (fun _ => 0) { defaultOptions with
      trimPercentage := 100 } default h ∧ h.trimList = [0] ∧ 0 ∈ h.ioHistTree ++ h.ioHistList := by
  obtain ⟨h, hlog, htr⟩ : ∃ h, call (fun _ => 0) { defaultOptions with
      trimPercentage := 100 } default (.log (blockWrite 0 1 1) 0) = .ok h ∧ h.trimList = [0] := by
    decide +kernel
  have hrch := Reached.start.step (c := .log (blockWrite 0 1 1) 0) ⟨rfl, ?_⟩ hlog
  · refine ⟨h, hrch, htr, (trimQueue_live default_unused hrch).2.1 0 ?_⟩
    rw [htr]
    exact List.mem_singleton_self 0
  · rintro ⟨f, -, hseg⟩
    exact absurd (show segBranch _ (default : FioFile) = true from hseg) (by decide)

end FioSsd.History
