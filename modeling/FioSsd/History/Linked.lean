import FioSsd.History.Cases

/-! # The links of a history

An entry is on the tree or on the list, and besides on the trim list or in a bucket of the hash
table, but never both: only the segment branch hashes, and it draws no trims. -/

namespace FioSsd.History

open List

open Function (update_self update_of_ne)

variable {f : FileId} {ipo' : IoPiece} {hash : KeyHash} {o : ThreadOptions} {A A' : List Nat}
  {h h' : History} {p q : Nat} {ipo : IoPiece}

def members (A : List Nat) (h : History) : List Nat := A ++ (h.ioHistTree ++ h.ioHistList)

structure PieceLinks (h : History) (p : Nat) (ipo : IoPiece) : Prop where
  trim : p ∈ h.trimList ↔ ipo.trimList = true
  bucket : ∀ b, p ∈ h.iohistHash b ↔ ipo.hashList = some b
  hashed : ipo.hashed = ipo.hashList.isSome
  segment : ipo.hashed = true → ipo.trimList = false ∧ p ∈ h.ioHistList
  onList : ipo.onList = true → p ∈ h.ioHistList
  onRb : ipo.onRb = true → p ∈ h.ioHistTree

/-- The containers hold the entries and the pieces of `A`, each once, and the counters count them. -/
structure Linked (A : List Nat) (h : History) : Prop where
  fresh : ∀ {p ipo}, h.heap p = some ipo → p < h.nextAddr
  owned : ∀ {p ipo}, h.heap p = some ipo → p ∈ members A h
  nodup : (members A h).Nodup
  len : h.ioHistLen = h.ioHistTree.length + h.ioHistList.length
  piece : ∀ p ∈ members A h, ∃ ipo, h.heap p = some ipo ∧ PieceLinks h p ipo
  trimMem : ∀ p ∈ h.trimList, p ∈ members A h
  trimNodup : h.trimList.Nodup
  trimLen : h.trimEntries = h.trimList.length
  bucketMem : ∀ b, ∀ p ∈ h.iohistHash b, p ∈ members A h
  bucketNodup : ∀ b, (h.iohistHash b).Nodup

lemma PieceLinks.trimList_eq_false (hln : PieceLinks h p ipo) (htr : p ∉ h.trimList) :
    ipo.trimList = false := by
  simpa [hln.trim] using htr

lemma Linked.links (hl : Linked A h) (hp : p ∈ members A h) (hipo : h.heap p = some ipo) :
    PieceLinks h p ipo := by
  obtain ⟨ipo', hip', hln⟩ := hl.piece p hp
  cases hipo.symm.trans hip'
  exact hln

lemma Linked.withFiles (hl : Linked A h) (files : FileId → FioFile) :
    Linked A { h with files := files } :=
  ⟨hl.fresh, hl.owned, hl.nodup, hl.len, fun p hp => by
      obtain ⟨ipo, hipo, hln⟩ := hl.piece p hp
      exact ⟨ipo, hipo, ⟨hln.trim, hln.bucket, hln.hashed, hln.segment, hln.onList, hln.onRb⟩⟩,
    hl.trimMem, hl.trimNodup, hl.trimLen, hl.bucketMem, hl.bucketNodup⟩

lemma Linked.setMap2 (hl : Linked A h) (f : FileId) (m : Map2) : Linked A (h.setMap2 f m) :=
  hl.withFiles _

lemma Linked.setBit {pos : Pos} {stat : Blk} (hl : Linked A h) (hr : h.setBit f pos stat = .ok h')
    : Linked A h' := by
  obtain ⟨m, rfl⟩ := setBit_cases hr
  exact hl.setMap2 f m

/-- The containers agree on every piece but `p`. -/
structure SameBut (A A' : List Nat) (h h' : History) (p : Nat) : Prop where
  heap : ∀ q, q ≠ p → h'.heap q = h.heap q
  aside : ∀ q, q ≠ p → (q ∈ A' ↔ q ∈ A)
  tree : ∀ q, q ≠ p → (q ∈ h'.ioHistTree ↔ q ∈ h.ioHistTree)
  list : ∀ q, q ≠ p → (q ∈ h'.ioHistList ↔ q ∈ h.ioHistList)
  trim : ∀ q, q ≠ p → (q ∈ h'.trimList ↔ q ∈ h.trimList)
  bucket : ∀ q b, q ≠ p → (q ∈ h'.iohistHash b ↔ q ∈ h.iohistHash b)

lemma SameBut.members (heq : SameBut A A' h h' p) (hq : q ≠ p) :
    q ∈ members A' h' ↔ q ∈ members A h := by
  simp [History.members, mem_append, heq.aside q hq, heq.tree q hq, heq.list q hq]

lemma Linked.update (hl : Linked A h) (heq : SameBut A A' h h' p)
    (hsl : (∃ ipo, h'.heap p = some ipo ∧ p < h'.nextAddr ∧ p ∈ members A' h' ∧ PieceLinks h' p ipo) ∨
      h'.heap p = none ∧ p ∉ members A' h' ∧ p ∉ h'.trimList ∧ ∀ b, p ∉ h'.iohistHash b)
    (hnx : h.nextAddr ≤ h'.nextAddr) (hnd : (members A' h').Nodup)
    (hlen : h'.ioHistLen = h'.ioHistTree.length + h'.ioHistList.length) (htrn : h'.trimList.Nodup)
    (htrl : h'.trimEntries = h'.trimList.length) (hbcn : ∀ b, (h'.iohistHash b).Nodup)
    : Linked A' h' := by
  refine ⟨?_, ?_, hnd, hlen, ?_, ?_, htrn, htrl, ?_, hbcn⟩
  · intro q piece hq
    by_cases hqp : q = p
    · subst hqp
      rcases hsl with ⟨_, _, hlt, _⟩ | ⟨hno, _⟩
      · exact hlt
      · cases hno.symm.trans hq
    · rw [heq.heap q hqp] at hq
      exact lt_of_lt_of_le (hl.fresh hq) hnx
  · intro q piece hq
    by_cases hqp : q = p
    · subst hqp
      rcases hsl with ⟨_, _, _, hmem, _⟩ | ⟨hno, _⟩
      · exact hmem
      · cases hno.symm.trans hq
    · rw [heq.heap q hqp] at hq
      exact (heq.members hqp).2 (hl.owned hq)
  · intro q hq
    by_cases hqp : q = p
    · subst hqp
      rcases hsl with ⟨piece, hpc, _, _, hln⟩ | ⟨_, hnot, _⟩
      · exact ⟨piece, hpc, hln⟩
      · exact absurd hq hnot
    · obtain ⟨piece, hpc, hln⟩ := hl.piece q ((heq.members hqp).1 hq)
      refine ⟨piece, (heq.heap q hqp).trans hpc, ?_, fun b => ?_, hln.hashed, ?_, ?_, ?_⟩
      · rw [heq.trim q hqp, hln.trim]
      · rw [heq.bucket q b hqp, hln.bucket]
      · rw [heq.list q hqp]
        exact hln.segment
      · rw [heq.list q hqp]
        exact hln.onList
      · rw [heq.tree q hqp]
        exact hln.onRb
  · intro q hq
    by_cases hqp : q = p
    · subst hqp
      rcases hsl with ⟨_, _, _, hmem, _⟩ | ⟨_, _, hnot, _⟩
      · exact hmem
      · exact absurd hq hnot
    · exact (heq.members hqp).2 (hl.trimMem q ((heq.trim q hqp).1 hq))
  · intro b q hq
    by_cases hqp : q = p
    · subst hqp
      rcases hsl with ⟨_, _, _, hmem, _⟩ | ⟨_, _, _, hnot⟩
      · exact hmem
      · exact absurd hq (hnot b)
    · exact (heq.members hqp).2 (hl.bucketMem b q ((heq.bucket q b hqp).1 hq))

lemma Linked.not_mem_of_fresh (hl : Linked A h) (hp : h.nextAddr ≤ p) : p ∉ members A h := by
  intro hmem
  obtain ⟨ipo, hipo, -⟩ := hl.piece p hmem
  exact absurd (hl.fresh hipo) (by omega)

lemma Linked.malloc (hl : Linked A h) (htr : ipo.trimList = false) (hhsh : ipo.hashed = false)
    (hls : ipo.hashList = none) (honl : ipo.onList = false) (honr : ipo.onRb = false) :
    Linked (h.nextAddr :: A) (h.malloc ipo) := by
  have hnew := hl.not_mem_of_fresh (le_refl h.nextAddr)
  refine hl.update (p := h.nextAddr) ⟨?_, ?_, ?_, ?_, ?_, ?_⟩ (.inl ?_) (Nat.le_succ _) ?_ hl.len
    hl.trimNodup hl.trimLen hl.bucketNodup
  · exact fun q hq => update_of_ne hq _ _
  · intro q hq
    simp [hq]
  · exact fun _ _ => Iff.rfl
  · exact fun _ _ => Iff.rfl
  · exact fun _ _ => Iff.rfl
  · exact fun _ _ _ => Iff.rfl
  · refine ⟨ipo, update_self .., Nat.lt_succ_self _, mem_cons_self, ?_, fun b => ?_, ?_, ?_, ?_, ?_⟩
    · exact iff_of_false (fun hmem => hnew (hl.trimMem _ hmem)) (by simp [htr])
    · exact iff_of_false (fun hmem => hnew (hl.bucketMem b _ hmem)) (by simp [hls])
    · rw [hhsh, hls]
      rfl
    · exact fun hh => nomatch hhsh.symm.trans hh
    · exact fun hh => nomatch honl.symm.trans hh
    · exact fun hh => nomatch honr.symm.trans hh
  · exact nodup_cons.2 ⟨hnew, hl.nodup⟩

lemma Linked.setPiece (hl : Linked A h) (hp : p ∈ members A h) (hln : PieceLinks h p ipo')
    : Linked A (h.setPiece p ipo') := by
  obtain ⟨ipo, hipo, -⟩ := hl.piece p hp
  refine hl.update (p := p) ⟨?_, fun _ _ => Iff.rfl, fun _ _ => Iff.rfl, fun _ _ => Iff.rfl,
    fun _ _ => Iff.rfl, fun _ _ _ => Iff.rfl⟩ (.inl ?_) le_rfl hl.nodup hl.len
    hl.trimNodup hl.trimLen hl.bucketNodup
  · exact fun q hq => update_of_ne hq _ _
  · exact ⟨ipo', update_self .., hl.fresh hipo, hp,
      ⟨hln.trim, hln.bucket, hln.hashed, hln.segment, hln.onList, hln.onRb⟩⟩

lemma PieceLinks.of_same (hln : PieceLinks h p ipo) (htr : ipo'.trimList = ipo.trimList)
    (hhsh : ipo'.hashed = ipo.hashed) (hls : ipo'.hashList = ipo.hashList)
    (honl : ipo'.onList = ipo.onList) (honr : ipo'.onRb = ipo.onRb) : PieceLinks h p ipo' :=
  ⟨by rw [htr]; exact hln.trim, by rw [hls]; exact hln.bucket,
    by rw [hhsh, hls]; exact hln.hashed, by rw [htr, hhsh]; exact hln.segment,
    by rw [honl]; exact hln.onList, by rw [honr]; exact hln.onRb⟩

lemma Linked.iohistHashDel (hl : Linked A h) (hp : p ∈ members A h)
    (hr : h.iohistHashDel p = .ok h') :
    Linked A h' ∧ ∀ ipo, h'.heap p = some ipo → ipo.hashed = false := by
  obtain ⟨ipo, hipo, ⟨hhsh, rfl⟩ | ⟨b, hhsh, hls, rfl⟩⟩ := iohistHashDel_cases hr
  · refine ⟨hl, fun piece hpc => ?_⟩
    rwa [← Option.some.inj (hipo.symm.trans hpc)]
  have hln := hl.links hp hipo
  refine ⟨?_, fun piece hpc => ?_⟩
  · refine hl.update (p := p) ⟨?_, fun _ _ => Iff.rfl, fun _ _ => Iff.rfl, fun _ _ => Iff.rfl,
      fun _ _ => Iff.rfl, fun q c hq => mem_unlink_of_ne hq⟩ (.inl ?_) le_rfl hl.nodup hl.len
      hl.trimNodup hl.trimLen ?_
    · exact fun q hq => update_of_ne hq _ _
    · refine ⟨_, update_self .., hl.fresh hipo, hp, hln.trim, fun c => ?_, rfl, by simp,
        hln.onList, hln.onRb⟩
      refine iff_of_false (fun hmem => ?_) (by simp)
      by_cases hc : c = b
      · subst hc
        simp only [update_self] at hmem
        exact (hl.bucketNodup c).not_mem_erase hmem
      · simp only [update_of_ne hc] at hmem
        have hbt := hls.symm.trans ((hln.bucket c).1 hmem)
        exact hc (Option.some.inj hbt).symm
    · exact nodup_unlink hl.bucketNodup
  · simp only [History.setPiece, update_self, Option.some.injEq] at hpc
    rw [← hpc]

lemma Linked.not_mem_bucket (hl : Linked A h) (hp : p ∈ members A h) (hipo : h.heap p = some ipo)
    (hhsh : ipo.hashed = false) (b : Nat) : p ∉ h.iohistHash b := by
  have hln := hl.links hp hipo
  intro hmem
  have hso := hln.hashed
  rw [(hln.bucket b).1 hmem, hhsh] at hso
  cases hso

lemma Linked.iohistHashAdd (hl : Linked A h) (hp : p ∈ h.ioHistList) (htr : p ∉ h.trimList)
    (hr : h.iohistHashAdd hash p = .ok h') : Linked A h' := by
  have hmem : p ∈ members A h := by simp [members, hp]
  obtain ⟨ipo, hipo, hcs⟩ := iohistHashAdd_cases hr
  have hln := hl.links hmem hipo
  rcases hcs with ⟨-, rfl⟩ | ⟨hhsh, -, rfl⟩ | ⟨hhsh, rfl⟩
  · exact hl
  · have hno : ipo.hashList = none := by
      have hiff := hln.hashed
      rw [hhsh] at hiff
      simpa using hiff.symm
    exact hl.setPiece hmem (hln.of_same rfl rfl hno.symm rfl rfl)
  · have hout := hl.not_mem_bucket hmem hipo hhsh
    refine hl.update (p := p) ⟨?_, fun _ _ => Iff.rfl, fun _ _ => Iff.rfl, fun _ _ => Iff.rfl,
      fun _ _ => Iff.rfl, ?_⟩ (.inl ?_) le_rfl hl.nodup hl.len hl.trimNodup hl.trimLen
      (nodup_link hl.bucketNodup (hout _))
    · exact fun q hq => update_of_ne hq _ _
    · intro q b hq
      rw [mem_link]
      simp [hq]
    · refine ⟨_, update_self .., hl.fresh hipo, hmem, hln.trim, fun b => ?_, rfl,
        fun _ => ⟨hln.trimList_eq_false htr, hp⟩, hln.onList, hln.onRb⟩
      rw [mem_link]
      simp [hout, eq_comm]

lemma Linked.link (hl : Linked (p :: A) h) (hhp : h'.heap = Function.update h.heap p (some ipo'))
    (hnx : h'.nextAddr = h.nextAddr)
    (hpr : (h'.ioHistTree ++ h'.ioHistList).Perm (p :: (h.ioHistTree ++ h.ioHistList)))
    (htre : ∀ q, q ≠ p → (q ∈ h'.ioHistTree ↔ q ∈ h.ioHistTree))
    (hls : ∀ q, q ≠ p → (q ∈ h'.ioHistList ↔ q ∈ h.ioHistList))
    (hlen : h'.ioHistLen = h.ioHistLen + 1) (htr : h'.trimList = h.trimList)
    (htrl : h'.trimEntries = h.trimEntries)
    (hbck : ∀ q b, q ≠ p → (q ∈ h'.iohistHash b ↔ q ∈ h.iohistHash b))
    (hnd : ∀ b, (h'.iohistHash b).Nodup) (hln : PieceLinks h' p ipo') : Linked A h' := by
  have hmbr := (hpr.append_left A).trans perm_middle
  obtain ⟨ipo, hipo, -⟩ := hl.piece p (by simp [members])
  refine hl.update (p := p) ⟨?_, ?_, htre, hls, ?_, hbck⟩ (.inl ?_)
    (by rw [hnx]) (hmbr.nodup_iff.2 hl.nodup) ?_ (by rw [htr]; exact hl.trimNodup)
    (by rw [htr, htrl]; exact hl.trimLen) hnd
  · intro q hq
    rw [hhp, update_of_ne hq]
  · intro q hq
    simp [hq]
  · exact fun q _ => by rw [htr]
  · refine ⟨ipo', by rw [hhp, update_self], ?_, ?_, hln⟩
    · rw [hnx]
      exact hl.fresh hipo
    · exact hmbr.mem_iff.2 (by simp)
  · have hlng := hpr.length_eq
    simp only [length_append, length_cons] at hlng
    rw [hlen, hl.len]
    omega

lemma Linked.aside (hl : Linked (p :: A) h) (hipo : h.heap p = some ipo) :
    PieceLinks h p ipo ∧ ipo.hashed = false ∧ ipo.hashList = none ∧
      (∀ b, p ∉ h.iohistHash b) ∧ ipo.onList = false ∧ ipo.onRb = false := by
  have hmem : p ∈ members (p :: A) h := by simp [members]
  have hln := hl.links hmem hipo
  have hhsh : ipo.hashed = false := by
    by_contra hcon
    have hls := (hln.segment (by simpa using hcon)).2
    exact (nodup_cons.1 hl.nodup).1 (by simp [hls])
  have hno : ipo.hashList = none := by
    have hiff := hln.hashed
    rw [hhsh] at hiff
    simpa using hiff.symm
  have hnot : p ∉ h.ioHistTree ++ h.ioHistList := fun hcon =>
    (nodup_cons.1 hl.nodup).1 (mem_append_right _ hcon)
  refine ⟨hln, hhsh, hno, hl.not_mem_bucket hmem hipo hhsh, ?_, ?_⟩
  · by_contra hcon
    exact hnot (mem_append_right _ (hln.onList (by simpa using hcon)))
  · by_contra hcon
    exact hnot (mem_append_left _ (hln.onRb (by simpa using hcon)))

lemma Linked.linkSegment (hl : Linked (p :: A) h) (htr : p ∉ h.trimList)
    (hr : h.linkSegment hash p = .ok h') : Linked A h' := by
  obtain ⟨h1, ipo1, hadd, hip1, rfl⟩ := linkSegment_cases hr
  obtain ⟨ipo, hipo, hcs⟩ := iohistHashAdd_cases hadd
  obtain ⟨hln, hhsh, hno, hout, -, honr⟩ := hl.aside hipo
  have hpr : (h.ioHistTree ++ (h.ioHistList ++ [p])).Perm (p :: (h.ioHistTree ++ h.ioHistList)) := by
    rw [← append_assoc]
    exact perm_append_singleton p _
  have hls : ∀ q, q ≠ p → (q ∈ h.ioHistList ++ [p] ↔ q ∈ h.ioHistList) := by
    intro q hq
    simp [hq]
  rcases hcs with ⟨hcon, -⟩ | ⟨-, -, rfl⟩ | ⟨-, rfl⟩
  · cases hhsh.symm.trans hcon
  · simp only [History.setPiece, update_self, Option.some.injEq] at hip1
    subst hip1
    refine hl.link (Function.update_idem ..) rfl hpr (fun _ _ => Iff.rfl) hls rfl rfl rfl
      (fun _ _ _ => Iff.rfl) hl.bucketNodup ⟨hln.trim, fun b => ?_, ?_, ?_, fun _ => by simp, ?_⟩
    · exact iff_of_false (hout b) (by simp)
    · simpa using hhsh
    · intro hh
      cases hhsh.symm.trans hh
    · intro hh
      cases honr.symm.trans hh
  · simp only [History.setPiece, update_self, Option.some.injEq] at hip1
    subst hip1
    refine hl.link (Function.update_idem ..) rfl hpr (fun _ _ => Iff.rfl) hls rfl rfl rfl
      (fun q b hq => ?_) (nodup_link hl.bucketNodup (hout _))
      ⟨hln.trim, fun b => ?_, rfl, fun _ => ⟨hln.trimList_eq_false htr, by simp⟩,
        fun _ => by simp, ?_⟩
    · exact mem_link.trans (by simp [hq])
    · exact mem_link.trans (by simp [hout, eq_comm])
    · intro hh
      cases honr.symm.trans hh

def dropEntry (h : History) (p : Nat) : History :=
  { h.freePiece p with
    ioHistTree := h.ioHistTree.erase p, ioHistList := h.ioHistList.erase p
    ioHistLen := h.ioHistLen - 1
    trimList := h.trimList.erase p, trimEntries := (h.trimList.erase p).length }

section

variable (hl : Linked A h)

include hl

lemma Linked.drop (hp : p ∈ h.ioHistTree ++ h.ioHistList) (hipo : h.heap p = some ipo)
    (hhsh : ipo.hashed = false) : Linked A (h.dropEntry p) := by
  have hmem : p ∈ members A h := mem_append_right _ hp
  obtain ⟨-, hent, hdsj⟩ := nodup_append.1 hl.nodup
  obtain ⟨htr, hls, hap⟩ := nodup_append.1 hent
  refine hl.update (p := p) ⟨?_, fun _ _ => Iff.rfl, ?_, ?_, ?_, fun _ _ _ => Iff.rfl⟩
    (.inr ⟨update_self .., ?_, ?_, ?_⟩) le_rfl ?_ ?_ (hl.trimNodup.erase p) rfl
    hl.bucketNodup
  · exact fun q hq => update_of_ne hq _ _
  · exact fun q hq => mem_erase_of_ne hq
  · exact fun q hq => mem_erase_of_ne hq
  · exact fun q hq => mem_erase_of_ne hq
  · simp only [members, dropEntry, mem_append, not_or]
    exact ⟨fun hA => hdsj p hA p hp rfl, htr.not_mem_erase, hls.not_mem_erase⟩
  · exact hl.trimNodup.not_mem_erase
  · exact hl.not_mem_bucket hmem hipo hhsh
  · refine hl.nodup.sublist (List.Sublist.append (.refl A) ?_)
    exact erase_sublist.append erase_sublist
  · simp only [dropEntry, hl.len]
    rcases mem_append.1 hp with hp | hp
    · have hnot : p ∉ h.ioHistList := fun hcon => hap p hp p hcon rfl
      have hpos := length_pos_of_mem hp
      rw [erase_of_not_mem hnot, length_erase_of_mem hp]
      omega
    · have hnot : p ∉ h.ioHistTree := fun hcon => hap p hcon p hp rfl
      have hpos := length_pos_of_mem hp
      rw [erase_of_not_mem hnot, length_erase_of_mem hp]
      omega

lemma Linked.found {b : Nat} (hq : q ∈ h.iohistHash b) :
    q ∈ h.ioHistList ∧ q ∉ h.trimList ∧ q ∉ h.ioHistTree := by
  have hmem := hl.bucketMem b q hq
  obtain ⟨ipo, hipo, hln⟩ := hl.piece q hmem
  have hhsh : ipo.hashed = true := by
    rw [hln.hashed, (hln.bucket b).1 hq]
    rfl
  obtain ⟨htr, hls⟩ := hln.segment hhsh
  refine ⟨hls, fun hcon => ?_, fun hcon => ?_⟩
  · cases htr.symm.trans (hln.trim.1 hcon)
  · have hent := (nodup_append.1 hl.nodup).2.1
    exact (nodup_append.1 hent).2.2 q hcon q hls rfl

lemma Linked.overlapDivide {block start len : Nat}
    (hr : h.overlapDivide hash o f block start len = .ok h') :
    Linked A h' ∧ h'.trimList = h.trimList := by
  obtain ⟨q, ipo, hbck, hipo, -, hdvd⟩ := overlapDivide_cases hr
  obtain ⟨hls, htr, htre⟩ := hl.found hbck
  have hmem : q ∈ members A h := by simp [members, hls]
  have hln := hl.links hmem hipo
  cases hdvd with
  | @shift h1 h2 _ _ _ hdel hset hadd =>
    have hq1 := iohistHashDel_queues hdel
    have hq2 := setBit_queues hset
    have hl0 : Linked A (h.setPiece q { ipo with
        nrBlk := block + ipo.nrBlk - (start + len), block := start + len }) :=
      hl.setPiece hmem (hln.of_same rfl rfl rfl rfl rfl)
    have hl2 := (hl0.iohistHashDel hmem hdel).1.setBit hset
    refine ⟨hl2.iohistHashAdd ?_ ?_ hadd, ?_⟩
    · rw [hq2.list, hq1.list]
      exact hls
    · rw [hq2.trim, hq1.trim]
      exact htr
    · rw [(iohistHashAdd_queues hadd).trim, hq2.trim, hq1.trim]
      rfl
  | @drop h1 ipo1 _ _ hdel hip1 _ =>
    have hq1 := iohistHashDel_queues hdel
    obtain ⟨hl1, hun⟩ := hl.iohistHashDel hmem hdel
    have hdrop := hl1.drop (p := q) (by simp [hq1.list, hls]) hip1 (hun _ hip1)
    have htr1 : h1.trimList.erase q = h1.trimList := erase_of_not_mem (by rw [hq1.trim]; exact htr)
    have htre1 : h1.ioHistTree.erase q = h1.ioHistTree :=
      erase_of_not_mem (by rw [hq1.tree]; exact htre)
    refine ⟨?_, hq1.trim⟩
    simp only [dropEntry, htr1, htre1, ← hl1.trimLen] at hdrop
    exact hdrop
  | @split h1 h2 ipo2 _ _ hset hlin hip2 =>
    have hnew : h.nextAddr ∉ h.trimList := fun hcon =>
      hl.not_mem_of_fresh le_rfl (hl.trimMem _ hcon)
    have hq1 := setBit_queues hset
    obtain ⟨-, hls2, -, htr2, -⟩ := linkSegment_queues hlin
    have hl0 : Linked (h.nextAddr :: A) (h.malloc { initIpo with
        file := f, block := start + len, nrBlk := block + ipo.nrBlk - (start + len)
        uniqueVersion := o.uniqueOps.copy ipo.uniqueVersion }) := hl.malloc rfl rfl rfl rfl rfl
    have hl1 := hl0.setBit hset
    have hl2 := hl1.linkSegment (by rw [hq1.trim]; exact hnew) hlin
    have hme2 : q ∈ members A h2 := by
      refine mem_append_right _ (mem_append_right _ ?_)
      rw [hls2, hq1.list]
      exact mem_append_left _ hls
    refine ⟨hl2.setPiece hme2 ((hl2.links hme2 hip2).of_same rfl rfl rfl rfl rfl), ?_⟩
    change h2.trimList = _
    rw [htr2, hq1.trim]
    rfl
  | trim _ _ => exact ⟨hl.setPiece hmem (hln.of_same rfl rfl rfl rfl rfl), rfl⟩

lemma Linked.insertSeg {block nrBlk : Nat}
    (hr : h.insertSeg (History.overlapDivide hash o) f block nrBlk = .ok h') :
    Linked A h' ∧ h'.trimList = h.trimList := by
  refine insertSeg_preserves (I := fun h1 => Linked A h1 ∧ h1.trimList = h.trimList) ?_ ?_
    ⟨hl, rfl⟩ hr
  · rintro h1 h2 b ⟨hl1, htr1⟩ hdvd
    obtain ⟨hl2, htr2⟩ := hl1.overlapDivide hdvd
    exact ⟨hl2, htr2.trans htr1⟩
  · rintro h1 h2 pos stat ⟨hl1, htr1⟩ hset
    exact ⟨hl1.setBit hset, (setBit_queues hset).trim.trans htr1⟩

lemma Linked.removeTrimEntry_freePiece {h1 : History} (hq : q ∈ h.ioHistTree)
    (hr : removeTrimEntry { h with
      ioHistLen := h.ioHistLen - 1, ioHistTree := h.ioHistTree.erase q } q = .ok h1) :
    h1.freePiece q = h.dropEntry q := by
  have hls : h.ioHistList.erase q = h.ioHistList := by
    refine erase_of_not_mem fun hcon => ?_
    have hent := (nodup_append.1 hl.nodup).2.1
    exact (nodup_append.1 hent).2.2 q hq q hcon rfl
  obtain ⟨ipo, hipo, hcs⟩ := removeTrimEntry_cases hr
  have hln := hl.links (by simp [members, hq]) hipo
  rcases hcs with ⟨htr, rfl⟩ | ⟨htr, rfl⟩
  · have hnot : q ∉ h.trimList := fun hcon => absurd (hln.trim.1 hcon) (by simp [htr])
    simp [dropEntry, freePiece, hls, erase_of_not_mem hnot, hl.trimLen]
  · have hmem := hln.trim.2 htr
    have hpos := length_pos_of_mem hmem
    have hlen : h.trimEntries - 1 = (h.trimList.erase q).length := by
      rw [length_erase_of_mem hmem, hl.trimLen]
      omega
    simp [dropEntry, freePiece, History.setPiece, hls, hlen, Function.update_idem]

lemma Linked.tree_not_hashed (hq : q ∈ h.ioHistTree) (hold : h.heap q = some ipo) :
    ipo.hashed = false := by
  by_contra hcon
  have hln := hl.links (by simp [members, hq]) hold
  have hls := (hln.segment (by simpa using hcon)).2
  have hent := (nodup_append.1 hl.nodup).2.1
  exact (nodup_append.1 hent).2.2 q hq q hls rfl

end

lemma Linked.treeInsert {fuel : Nat} : ∀ {h : History}, Linked (p :: A) h →
    History.treeInsert p fuel h = .ok h' → Linked A h' := by
  induction fuel with
  | zero =>
    intro h _ hr
    simp [History.treeInsert] at hr
  | succ fuel ih =>
    intro h hl hr
    obtain ⟨ipo, hipo, hcs⟩ := treeInsert_cases hr
    rcases hcs with ⟨q, old, h1, hq, hold, -, hrmv, hrs⟩ | ⟨tree, hpr, rfl⟩
    · rw [hl.removeTrimEntry_freePiece hq hrmv] at hrs
      exact ih (hl.drop (mem_append_left _ hq) hold (hl.tree_not_hashed hq hold)) hrs
    · obtain ⟨hln, hhsh, -, -, honl, -⟩ := hl.aside hipo
      refine hl.link rfl rfl (hpr.append_right _) (fun q hq => ?_) (fun _ _ => Iff.rfl) rfl rfl rfl
        (fun _ _ _ => Iff.rfl) hl.bucketNodup
        ⟨hln.trim, hln.bucket, hln.hashed, fun hh => ?_, fun hh => ?_, fun _ => ?_⟩
      · exact hpr.mem_iff.trans (by simp [hq])
      · cases hhsh.symm.trans hh
      · cases honl.symm.trans hh
      · exact hpr.mem_iff.2 mem_cons_self

lemma Linked.drawTrim {r : Nat} (hl : Linked (p :: A) h) (hipo : h.heap p = some ipo)
    (htr : p ∉ h.trimList) : Linked (p :: A) (h.drawTrim o p ipo r) := by
  unfold History.drawTrim
  split_ifs
  · obtain ⟨hln, hhsh, -⟩ := hl.aside hipo
    have hmem : p ∈ members (p :: A) h := by simp [members]
    refine hl.update (p := p) ⟨?_, fun _ _ => Iff.rfl, fun _ _ => Iff.rfl, fun _ _ => Iff.rfl, ?_,
      fun _ _ _ => Iff.rfl⟩ (.inl ?_) le_rfl hl.nodup hl.len ?_ ?_ hl.bucketNodup
    · exact fun q hq => update_of_ne hq _ _
    · intro q hq
      simp [hq]
    · refine ⟨_, update_self .., hl.fresh hipo, hmem, by simp, hln.bucket, hln.hashed,
        fun hh => ?_, hln.onList, hln.onRb⟩
      cases hhsh.symm.trans hh
    · exact nodup_append.2 ⟨hl.trimNodup, nodup_singleton p, fun q hq r hr => by
        rintro rfl
        exact htr (mem_singleton.1 hr ▸ hq)⟩
    · rw [length_append, hl.trimLen]
      rfl
  · exact hl

lemma Linked.linkPiece (hl : Linked (p :: A) h) (hr : h.linkPiece o p f = .ok h')
    : Linked A h' := by
  unfold History.linkPiece at hr
  split_ifs at hr
  · exact hl.treeInsert hr
  · obtain ⟨ipo, hder, hr⟩ := of_bind hr
    cases hr
    obtain ⟨hln, hhsh, -, -, -, honr⟩ := hl.aside (heap_of_deref hder)
    refine hl.link rfl rfl ?_ (fun _ _ => Iff.rfl) (fun q hq => by simp [hq]) rfl rfl rfl
      (fun _ _ _ => Iff.rfl) hl.bucketNodup
      ⟨hln.trim, hln.bucket, hln.hashed, fun hh => ?_, fun _ => by simp, fun hh => ?_⟩
    · rw [← append_assoc]
      exact perm_append_singleton p _
    · cases hhsh.symm.trans hh
    · cases honr.symm.trans hh

lemma Linked.newPiece {ioU : IoU} (hl : Linked A h) (block nrBlk : Nat) :
    Linked (h.nextAddr :: A) ((h.malloc (newPiece o f ioU)).setPiece h.nextAddr
      { newPiece o f ioU with block := block, nrBlk := nrBlk }) := by
  have hl0 : Linked (h.nextAddr :: A) (h.malloc (History.newPiece o f ioU)) :=
    hl.malloc rfl rfl rfl rfl rfl
  have hmem : h.nextAddr ∈ members (h.nextAddr :: A) (h.malloc (History.newPiece o f ioU)) :=
    mem_cons_self
  exact hl0.setPiece hmem ((hl0.links hmem (update_self ..)).of_same rfl rfl rfl rfl rfl)

lemma Linked.logIoPiece {ioU : IoU} {r : Nat} (hl : Linked A h)
    (hr : h.logIoPiece hash o ioU r = .ok h') : Linked A h' := by
  have hnew : h.nextAddr ∉ h.trimList := fun hcon =>
    hl.not_mem_of_fresh le_rfl (hl.trimMem _ hcon)
  obtain ⟨f, -, ⟨-, h1, hins, hln⟩ | ⟨-, hpl⟩⟩ := logIoPiece_cases hr
  · obtain ⟨hl1, htr1⟩ := (hl.newPiece _ _).insertSeg hins
    exact hl1.linkSegment (by rw [htr1]; exact hnew) hln
  · exact ((hl.newPiece _ _).drawTrim (update_self ..) hnew).linkPiece hpl

end FioSsd.History
