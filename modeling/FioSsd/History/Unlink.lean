import FioSsd.History.Linked

/-! # Taking entries off the history -/

namespace FioSsd.History

open List

open Function (update_self update_of_ne)

variable {hash : KeyHash} {o : ThreadOptions} {A : List Nat} {h h' : History} {p q : Nat}
  {ipo : IoPiece} {ioU ioU' : IoU} {outcome : OpenOutcome} {failed : Bool}

def SameButFiles (h h' : History) : Prop :=
  ∃ files n, h' = { h with files := files, nrOpenFiles := n }

lemma SameButFiles.refl (h : History) : SameButFiles h h := ⟨_, _, rfl⟩

lemma SameButFiles.trans {h1 h2 h3 : History} (a : SameButFiles h1 h2) (b : SameButFiles h2 h3) :
    SameButFiles h1 h3 := by
  obtain ⟨files, n, rfl⟩ := a
  obtain ⟨files', n', rfl⟩ := b
  exact ⟨files', n', rfl⟩

lemma SameButFiles.len (heq : SameButFiles h h') : h'.ioHistLen = h.ioHistLen := by
  obtain ⟨files, n, rfl⟩ := heq
  rfl

lemma Linked.of_sameButFiles (hl : Linked A h) (heq : SameButFiles h h') : Linked A h' := by
  obtain ⟨files, n, rfl⟩ := heq
  refine ⟨hl.fresh, hl.owned, hl.nodup, hl.len, fun p hp => ?_, hl.trimMem, hl.trimNodup, hl.trimLen,
    hl.bucketMem, hl.bucketNodup⟩
  obtain ⟨ipo, hipo, hln⟩ := hl.piece p hp
  exact ⟨ipo, hipo, hln.trim, hln.bucket, hln.hashed, hln.segment, hln.onList, hln.onRb⟩

lemma getFile_sameButFiles {f : FileId} (hr : h.getFile f = .ok h') : SameButFiles h h' := by
  unfold getFile at hr
  simp only at hr
  split_ifs at hr
  cases hr
  exact ⟨_, _, rfl⟩

lemma ensureOpen_sameButFiles {f : FileId} (hr : h.ensureOpen f outcome = .ok (failed, h')) :
    SameButFiles h h' := by
  unfold ensureOpen tdIoOpenFile at hr
  simp only at hr
  split_ifs at hr
  · cases hr
    exact ⟨_, _, rfl⟩
  · cases outcome with
    | engineFails =>
      cases hr
      exact ⟨_, _, rfl⟩
    | failsLate | succeeds =>
      obtain ⟨h1, hget, hr⟩ := of_bind hr
      cases hr
      obtain ⟨files, n, rfl⟩ := getFile_sameButFiles hget
      exact ⟨_, _, rfl⟩

lemma Linked.setAside (hl : Linked A h) (hp : p ∈ h.ioHistTree ++ h.ioHistList) {ipo' : IoPiece}
    (hhp : h'.heap = Function.update h.heap p (some ipo')) (hnx : h'.nextAddr = h.nextAddr)
    (htre : h'.ioHistTree = h.ioHistTree.erase p) (hls : h'.ioHistList = h.ioHistList.erase p)
    (hlen : h'.ioHistLen = h.ioHistLen - 1) (htr : h'.trimList = h.trimList)
    (htrl : h'.trimEntries = h.trimEntries)
    (hbck : ∀ q b, q ≠ p → (q ∈ h'.iohistHash b ↔ q ∈ h.iohistHash b))
    (hnd : ∀ b, (h'.iohistHash b).Nodup) (hln : PieceLinks h' p ipo') : Linked (p :: A) h' := by
  have hmem : p ∈ members A h := mem_append_right _ hp
  have hndp := (nodup_append.1 hl.nodup).2.1
  have hpr : (h.ioHistTree ++ h.ioHistList).Perm (p :: (h'.ioHistTree ++ h'.ioHistList)) := by
    rw [htre, hls]
    rcases mem_append.1 hp with hp | hp
    · have hnot : p ∉ h.ioHistList := fun hcon => (nodup_append.1 hndp).2.2 p hp p hcon rfl
      rw [erase_of_not_mem hnot]
      exact (perm_cons_erase hp).append_right _
    · have hnot : p ∉ h.ioHistTree := fun hcon => (nodup_append.1 hndp).2.2 p hcon p hp rfl
      rw [erase_of_not_mem hnot]
      exact ((perm_cons_erase hp).append_left _).trans perm_middle
  have hmbr := (perm_middle.symm.trans (hpr.symm.append_left A))
  obtain ⟨ipo, hipo, -⟩ := hl.piece p hmem
  refine hl.update (p := p) ⟨?_, ?_, ?_, ?_, ?_, hbck⟩ (.inl ?_) (by rw [hnx])
    (hmbr.nodup_iff.2 hl.nodup) ?_ (by rw [htr]; exact hl.trimNodup)
    (by rw [htr, htrl]; exact hl.trimLen) hnd
  · intro q hq
    rw [hhp, update_of_ne hq]
  · intro q hq
    simp [hq]
  · intro q hq
    rw [htre, mem_erase_of_ne hq]
  · intro q hq
    rw [hls, mem_erase_of_ne hq]
  · exact fun q _ => by rw [htr]
  · refine ⟨ipo', by rw [hhp, update_self], ?_, hmbr.mem_iff.2 hmem, hln⟩
    rw [hnx]
    exact hl.fresh hipo
  · have hlng := hpr.length_eq
    simp only [length_append, length_cons] at hlng
    rw [hlen, hl.len]
    omega

lemma Linked.freeAside (hl : Linked (p :: A) h) (hr : h.removeTrimEntry p = .ok h') :
    Linked A (h'.freePiece p) := by
  have hnd := nodup_cons.1 hl.nodup
  obtain ⟨ipo, hipo, hcs⟩ := removeTrimEntry_cases hr
  obtain ⟨hln, -, -, hout, -⟩ := hl.aside hipo
  have hasi : ∀ q, q ≠ p → (q ∈ A ↔ q ∈ p :: A) := by
    intro q hq
    simp [hq]
  rcases hcs with ⟨htr, rfl⟩ | ⟨htr, rfl⟩
  · have hnot : p ∉ h'.trimList := fun hcon => absurd (hln.trim.1 hcon) (by simp [htr])
    refine hl.update (p := p) ⟨?_, hasi, fun _ _ => Iff.rfl, fun _ _ => Iff.rfl, fun _ _ => Iff.rfl,
      fun _ _ _ => Iff.rfl⟩ (.inr ⟨update_self .., hnd.1, hnot, hout⟩) le_rfl
      hnd.2 hl.len hl.trimNodup hl.trimLen hl.bucketNodup
    exact fun q hq => update_of_ne hq _ _
  · have hmem := hln.trim.2 htr
    have hpos := length_pos_of_mem hmem
    refine hl.update (p := p) ⟨?_, hasi, fun _ _ => Iff.rfl, fun _ _ => Iff.rfl, ?_,
      fun _ _ _ => Iff.rfl⟩
      (.inr ⟨update_self .., hnd.1, hl.trimNodup.not_mem_erase, hout⟩) le_rfl
      hnd.2 hl.len (hl.trimNodup.erase p) ?_ hl.bucketNodup
    · intro q hq
      simp [freePiece, History.setPiece, update_of_ne hq]
    · exact fun q hq => mem_erase_of_ne hq
    · change h.trimEntries - 1 = (h.trimList.erase p).length
      rw [length_erase_of_mem hmem, hl.trimLen]
      omega

lemma Linked.takeNext {next : Option Nat} (hl : Linked A h)
    (hr : h.takeNext o = .ok (next, h')) : (next = none ∧ h' = h ∧ h.ioHistLen = 0) ∨
      ∃ p, next = some p ∧ h'.ioHistLen = h.ioHistLen ∧
        Linked (p :: A) { h' with ioHistLen := h'.ioHistLen - 1 } := by
  have hnd := (nodup_append.1 hl.nodup).2.1
  unfold History.takeNext at hr
  cases htr : h.ioHistTree with
  | cons p rest =>
    simp only [htr] at hr
    obtain ⟨ipo, hder, hr⟩ := of_bind hr
    have hipo := heap_of_deref hder
    split_ifs at hr
    cases hr
    have hp : p ∈ h.ioHistTree := by simp [htr]
    have hnot : p ∉ h.ioHistList := fun hcon =>
      (nodup_append.1 hnd).2.2 p hp p hcon rfl
    have hln := hl.links (mem_append_right _ (mem_append_left _ hp)) hipo
    have hhsh : ipo.hashed ≠ true := fun hcon => hnot (hln.segment hcon).2
    refine .inr ⟨p, rfl, rfl, hl.setAside (mem_append_left _ hp) rfl rfl ?_ ?_ rfl rfl rfl
      (fun _ _ _ => Iff.rfl) hl.bucketNodup ⟨hln.trim, hln.bucket, hln.hashed, ?_, ?_, ?_⟩⟩
    · rw [htr, erase_cons_head]
    · exact (erase_of_not_mem hnot).symm
    · exact fun hcon => absurd hcon hhsh
    · exact fun hcon => absurd (hln.onList hcon) hnot
    · simp
  | nil =>
    cases hls : h.ioHistList with
    | nil =>
      simp only [htr, hls] at hr
      cases hr
      exact .inl ⟨rfl, rfl, by rw [hl.len, htr, hls]; rfl⟩
    | cons p rest =>
      simp only [htr, hls] at hr
      obtain ⟨ipo, hder, hr⟩ := of_bind hr
      have hipo := heap_of_deref hder
      have hp : p ∈ h.ioHistList := by simp [hls]
      have hen := mem_append_right h.ioHistTree hp
      have hln := hl.links (mem_append_right _ hen) hipo
      have honr : ipo.onRb ≠ true := fun hcon => by
        have := hln.onRb hcon
        simp [htr] at this
      have her : rest = h.ioHistList.erase p := by rw [hls, erase_cons_head]
      have htr' : h.ioHistTree = h.ioHistTree.erase p := by simp [htr]
      split_ifs at hr with honl hhsh
      · obtain ⟨m, -, hr⟩ := of_bind hr
        obtain ⟨h1, hdel, hr⟩ := of_bind hr
        obtain ⟨ipo1, hip1, ⟨hun, -⟩ | ⟨b, -, hb, rfl⟩⟩ := iohistHashDel_cases hdel
        · simp only [History.setMap2, History.setPiece, update_self, Option.some.injEq] at hip1
          rw [← hip1] at hun
          cases hhsh.symm.trans hun
        simp only [History.setMap2, History.setPiece, update_self, Option.some.injEq] at hip1
        subst hip1
        simp only [deref, History.setMap2, History.setPiece, update_self, bind, Except.bind] at hr
        cases hr
        refine .inr ⟨p, rfl, rfl, hl.setAside hen
          ((Function.update_idem ..).trans (Function.update_idem ..)) rfl htr' her rfl rfl rfl
          (fun q c hq => mem_unlink_of_ne hq) (nodup_unlink hl.bucketNodup)
          ⟨hln.trim, fun c => ⟨fun hmem => ?_, ?_⟩, rfl, ?_, ?_, ?_⟩⟩
        · by_cases hc : c = b
          · subst hc
            simp only [update_self] at hmem
            exact absurd hmem (hl.bucketNodup c).not_mem_erase
          · simp only [update_of_ne hc] at hmem
            exact absurd (Option.some.inj (hb.symm.trans ((hln.bucket c).1 hmem))).symm hc
        · simp
        · simp
        · simp
        · exact fun hcon => absurd hcon honr
      · cases hr
        refine .inr ⟨p, rfl, rfl, hl.setAside hen rfl rfl htr' her rfl rfl rfl
          (fun _ _ _ => Iff.rfl) hl.bucketNodup
          ⟨hln.trim, hln.bucket, hln.hashed, fun hcon => ?_, by simp, ?_⟩⟩
        · exact absurd hcon hhsh
        · exact fun hcon => absurd hcon honr

lemma Linked.fillVerify (hl : Linked (p :: A) { h with ioHistLen := h.ioHistLen - 1 })
    (hr : h.fillVerify o p ioU outcome = .ok (failed, ioU', h')) :
    (∃ A', Linked A' h') ∧ h'.ioHistLen = h.ioHistLen - 1 := by
  obtain ⟨ipo, -, hr⟩ := of_bind hr
  obtain ⟨⟨failed1, h1⟩, hopn, hr⟩ := of_bind hr
  have heq := ensureOpen_sameButFiles hopn
  have hl1 := hl.of_sameButFiles heq
  by_cases hfld : failed1
  · simp only [hfld, if_true] at hr
    cases hr
    exact ⟨⟨_, hl1⟩, heq.len⟩
  · simp only [hfld, if_false, Bool.false_eq_true] at hr
    obtain ⟨h2, hget, hr⟩ := of_bind hr
    have heq2 := getFile_sameButFiles hget
    by_cases hiso : (h2.files ipo.file).isOpen
    · rw [if_pos hiso] at hr
      obtain ⟨h3, hrmv, hr⟩ := of_bind hr
      cases hr
      refine ⟨⟨_, (hl1.of_sameButFiles heq2).freeAside hrmv⟩, ?_⟩
      have hlen : h3.ioHistLen = h2.ioHistLen := by
        obtain ⟨piece, -, ⟨-, rfl⟩ | ⟨-, rfl⟩⟩ := removeTrimEntry_cases hrmv <;> rfl
      exact hlen.trans (heq2.len.trans heq.len)
    · rw [if_neg hiso] at hr
      cases hr

lemma Linked.getNextVerify (hl : Linked A h)
    (hr : h.getNextVerify o ioU outcome = .ok (failed, ioU', h')) :
    (∃ A', Linked A' h') ∧
      h'.ioHistLen = if ioU.file.isSome ∨ h.ioHistLen = 0 then h.ioHistLen else h.ioHistLen - 1 := by
  unfold History.getNextVerify at hr
  split_ifs at hr with hfl
  · cases hr
    exact ⟨⟨A, hl⟩, by rw [if_pos (.inl hfl)]⟩
  obtain ⟨⟨next, h1⟩, htk, hfil⟩ := of_bind hr
  rcases hl.takeNext htk with ⟨rfl, rfl, h0⟩ | ⟨p, rfl, hlen, hl1⟩
  · cases hfil
    exact ⟨⟨A, hl⟩, by rw [if_pos (.inr h0)]⟩
  · obtain ⟨hlnk, hln'⟩ := hl1.fillVerify hfil
    refine ⟨hlnk, ?_⟩
    have hpos : h.ioHistLen ≠ 0 := by
      -- the entry that was taken is still counted in `h`
      have := hl1.len
      simp only at this
      omega
    rw [if_neg (by simp [hfl, hpos]), hln', hlen]

/-- What `get_next_trim` does with the entry: without `trim_zero` nobody reads it back. -/
def trimPiece (o : ThreadOptions) (h : History) (p : Nat) (ipo : IoPiece) : Except Fault History :=
  if o.trimZero then .ok (h.setPiece p { ipo with trimmed := true })
  else if ipo.onList then
    .ok { h.freePiece p with ioHistList := h.ioHistList.erase p, ioHistLen := h.ioHistLen - 1 }
  else if ipo.onRb then
    .ok { h.freePiece p with ioHistTree := h.ioHistTree.erase p, ioHistLen := h.ioHistLen - 1 }
  else .error (.assertFailed .getNextTrim)

def getNextTrim (o : ThreadOptions) (h : History) (ioU : IoU) (outcome : OpenOutcome) :
    Except Fault (Bool × IoU × History) :=
  if ioU.file.isSome then .ok (false, ioU, h)
  else match h.trimList with
    | [] => .ok (true, ioU, h)
    | p :: _ =>
      if h.trimEntries = 0 then .error (.assertFailed .getNextTrim)
      else do
        let h ← h.removeTrimEntry p
        let ipo ← h.deref p
        let ioU := { ioU with
          offset := BitVec.ofNat 64 ipo.offset, buflen := BitVec.ofNat 64 ipo.len
          file := some ipo.file }
        let h ← h.trimPiece o p ipo
        let (failed, h) ← h.ensureOpen ipo.file outcome
        if failed then return (true, ioU, h)
        else
          let h ← h.getFile ipo.file
          if (h.files ipo.file).isOpen then
            return (false, { ioU with ddir := .trim, xferBuflen := ioU.buflen }, h)
          else .error (.assertFailed .getNextTrim)

lemma Linked.removeTrimEntry (hl : Linked A h) (hp : p ∈ h.trimList)
    (hr : h.removeTrimEntry p = .ok h') :
    Linked A h' ∧ p ∉ h'.trimList ∧ h'.ioHistLen = h.ioHistLen ∧
      ∀ ipo, h'.heap p = some ipo → ipo.hashed = false := by
  have hmem := hl.trimMem p hp
  obtain ⟨ipo, hipo, hcs⟩ := removeTrimEntry_cases hr
  have hln := hl.links hmem hipo
  have htr := hln.trim.1 hp
  have hhsh : ipo.hashed = false := by
    by_contra hcon
    cases (hln.segment (by simpa using hcon)).1.symm.trans htr
  rcases hcs with ⟨hfl, -⟩ | ⟨-, rfl⟩
  · cases htr.symm.trans hfl
  have hnot := hl.trimNodup.not_mem_erase (a := p)
  have hpos := length_pos_of_mem hp
  refine ⟨?_, hnot, rfl, fun piece hpc => ?_⟩
  · refine hl.update (p := p) ⟨?_, fun _ _ => Iff.rfl, fun _ _ => Iff.rfl, fun _ _ => Iff.rfl, ?_,
      fun _ _ _ => Iff.rfl⟩ (.inl ⟨_, update_self .., hl.fresh hipo, hmem, ?_, hln.bucket,
        hln.hashed, ?_, hln.onList, hln.onRb⟩) le_rfl hl.nodup hl.len
      (hl.trimNodup.erase p) ?_ hl.bucketNodup
    · exact fun q hq => update_of_ne hq _ _
    · exact fun q hq => mem_erase_of_ne hq
    · exact iff_of_false hnot (by simp)
    · exact fun hcon => nomatch hhsh.symm.trans hcon
    · change h.trimEntries - 1 = (h.trimList.erase p).length
      rw [length_erase_of_mem hp, hl.trimLen]
      omega
  · simp only [History.setPiece, update_self, Option.some.injEq] at hpc
    rw [← hpc]
    exact hhsh

lemma Linked.trimPiece (hl : Linked A h) (hipo : h.heap p = some ipo) (hhsh : ipo.hashed = false)
    (htr : p ∉ h.trimList) (hr : h.trimPiece o p ipo = .ok h') :
    Linked A h' ∧ h'.ioHistLen ≤ h.ioHistLen := by
  have hmem := hl.owned hipo
  have hln := hl.links hmem hipo
  have hnd := (nodup_append.1 (nodup_append.1 hl.nodup).2.1).2.2
  unfold History.trimPiece at hr
  split_ifs at hr with _ honl honr
  · cases hr
    exact ⟨hl.setPiece hmem (hln.of_same rfl rfl rfl rfl rfl), le_rfl⟩
  · cases hr
    have hp := hln.onList honl
    have hdrop := hl.drop (mem_append_right _ hp) hipo hhsh
    have hnot : p ∉ h.ioHistTree := fun hcon => hnd p hcon p hp rfl
    simp only [dropEntry, erase_of_not_mem hnot, erase_of_not_mem htr, ← hl.trimLen] at hdrop
    exact ⟨hdrop, by simp⟩
  · cases hr
    have hp := hln.onRb honr
    have hdrop := hl.drop (mem_append_left _ hp) hipo hhsh
    have hnot : p ∉ h.ioHistList := fun hcon => hnd p hp p hcon rfl
    simp only [dropEntry, erase_of_not_mem hnot, erase_of_not_mem htr, ← hl.trimLen] at hdrop
    exact ⟨hdrop, by simp⟩

lemma Linked.getNextTrim (hl : Linked A h)
    (hr : h.getNextTrim o ioU outcome = .ok (failed, ioU', h')) :
    Linked A h' ∧ h'.ioHistLen ≤ h.ioHistLen := by
  unfold History.getNextTrim at hr
  by_cases hfl : ioU.file.isSome
  · rw [if_pos hfl] at hr
    cases hr
    exact ⟨hl, le_rfl⟩
  rw [if_neg hfl] at hr
  cases hls : h.trimList with
  | nil =>
    simp only [hls] at hr
    cases hr
    exact ⟨hl, le_rfl⟩
  | cons p rest =>
    simp only [hls] at hr
    split_ifs at hr
    obtain ⟨h1, hrmv, hr⟩ := of_bind hr
    obtain ⟨ipo, hder, hr⟩ := of_bind hr
    obtain ⟨h2, htr, hr⟩ := of_bind hr
    obtain ⟨⟨failed1, h3⟩, hopn, hr⟩ := of_bind hr
    have hipo := heap_of_deref hder
    obtain ⟨hl1, hnot, hln1, hun⟩ := hl.removeTrimEntry (by simp [hls]) hrmv
    obtain ⟨hl2, hln2⟩ := hl1.trimPiece hipo (hun _ hipo) hnot htr
    have heq := ensureOpen_sameButFiles hopn
    by_cases hfld : failed1
    · simp only [hfld, if_true] at hr
      cases hr
      exact ⟨hl2.of_sameButFiles heq, by rw [heq.len, ← hln1]; exact hln2⟩
    · simp only [hfld, if_false, Bool.false_eq_true] at hr
      obtain ⟨h4, hget, hr⟩ := of_bind hr
      have hbt := heq.trans (getFile_sameButFiles hget)
      by_cases hiso : (h4.files ipo.file).isOpen
      · rw [if_pos hiso] at hr
        cases hr
        exact ⟨hl2.of_sameButFiles hbt, by rw [hbt.len, ← hln1]; exact hln2⟩
      · rw [if_neg hiso] at hr
        cases hr

end FioSsd.History
