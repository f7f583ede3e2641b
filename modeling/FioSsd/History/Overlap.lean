import FioSsd.History.Invariant

/-! # `overlap_divide` cuts one extent -/

namespace FioSsd

open Function Extent

namespace History

variable {hash : KeyHash} {o : ThreadOptions} {h h' : History} {p q : Nat}
  {ipo ipo' : IoPiece} {start len : Nat}

lemma Wf.of_setPiece (hw : Wf hash h) (h' : History) (hp : p ∈ h.ioHistList)
    (hls : h'.ioHistList = h.ioHistList) (hhp : h'.heap = update h.heap p (some ipo'))
    (had : h'.nextAddr = h.nextAddr) (hlen : h'.ioHistLen = h.ioHistLen)
    (htr : h'.ioHistTree = h.ioHistTree) (hwr : h'.words = h.words)
    (htb : TableOk hash h.words (update h.live p (some ipo')) h'.iohistHash) :
    Wf hash h' ∧ h'.live = update h.live p (some ipo') := by
  have hlv : h'.live = update h.live p (some ipo') := by
    funext q
    by_cases hqp : q = p
    · subst hqp
      simp [live, hls, hhp, hp]
    · simp [live, hls, hhp, hqp]
  refine ⟨⟨by rw [hls]; exact hw.nodup, ?_, ?_, by rw [hlen, hls]; exact hw.len,
    by rw [htr]; exact hw.tree, by rw [hwr, hlv]; exact htb⟩, hlv⟩
  · intro q hq
    rw [hls] at hq
    by_cases hqp : q = p
    · exact ⟨ipo', by rw [hhp, hqp, update_self]⟩
    · rw [hhp, update_of_ne hqp]
      exact hw.allocated q hq
  · intro q piece hq
    rw [had]
    by_cases hqp : q = p
    · obtain ⟨ipo, hipo⟩ := hw.allocated p hp
      rw [hqp]
      exact hw.fresh hipo
    · rw [hhp, update_of_ne hqp] at hq
      exact hw.fresh hq

lemma Wf.of_append (hw : Wf hash h) (h' : History) (hp : p ∉ h.ioHistList)
    (hls : h'.ioHistList = h.ioHistList ++ [p]) (hhp : h'.heap = update h.heap p (some ipo'))
    (had : h.nextAddr ≤ h'.nextAddr) (hpd : p < h'.nextAddr) (hlen : h'.ioHistLen = h.ioHistLen + 1)
    (htr : h'.ioHistTree = h.ioHistTree) (hwr : h'.words = h.words)
    (htb : TableOk hash h.words (update h.live p (some ipo')) h'.iohistHash) :
    Wf hash h' ∧ h'.live = update h.live p (some ipo') := by
  have hlv : h'.live = update h.live p (some ipo') := by
    funext q
    by_cases hqp : q = p
    · subst hqp
      simp [live, hls, hhp]
    · simp [live, hls, hhp, hqp]
  refine ⟨⟨?_, ?_, ?_, ?_, by rw [htr]; exact hw.tree, by rw [hwr, hlv]; exact htb⟩, hlv⟩
  · rw [hls]
    exact List.nodup_append.2 ⟨hw.nodup, by simp, by rintro a ha b hb rfl; simp_all⟩
  · intro q hq
    by_cases hqp : q = p
    · exact ⟨ipo', by rw [hhp, hqp, update_self]⟩
    · rw [hhp, update_of_ne hqp]
      rw [hls, List.mem_append, List.mem_singleton] at hq
      exact hw.allocated q (hq.resolve_right hqp)
  · intro q piece hq
    by_cases hqp : q = p
    · rw [hqp]
      exact hpd
    · rw [hhp, update_of_ne hqp] at hq
      have := hw.fresh hq
      omega
  · rw [hlen, hls, hw.len]
    simp

lemma Wf.of_erase (hw : Wf hash h) (h' : History) (hp : p ∈ h.ioHistList)
    (hls : h'.ioHistList = h.ioHistList.erase p) (hhp : ∀ q, q ≠ p → h'.heap q = h.heap q)
    (had : h'.nextAddr = h.nextAddr) (hlen : h'.ioHistLen = h.ioHistLen - 1)
    (htr : h'.ioHistTree = h.ioHistTree) (hwr : h'.words = h.words)
    (htb : TableOk hash h.words (update h.live p none) h'.iohistHash) :
    Wf hash h' ∧ h'.live = update h.live p none := by
  have hlv : h'.live = update h.live p none := by
    funext q
    by_cases hqp : q = p
    · subst hqp
      simp [live, hls, hw.nodup.mem_erase_iff]
    · simp [live, hls, hhp q hqp, hqp, hw.nodup.mem_erase_iff]
  refine ⟨⟨by rw [hls]; exact hw.nodup.erase p, ?_, ?_, ?_, by rw [htr]; exact hw.tree,
    by rw [hwr, hlv]; exact htb⟩, hlv⟩
  · intro q hq
    rw [hls, hw.nodup.mem_erase_iff] at hq
    rw [hhp q hq.1]
    exact hw.allocated q hq.2
  · intro q piece hq
    rw [had]
    by_cases hqp : q = p
    · obtain ⟨ipo, hipo⟩ := hw.allocated p hp
      rw [hqp]
      exact hw.fresh hipo
    · rw [hhp q hqp] at hq
      exact hw.fresh hq
  · have hpos := List.length_pos_of_mem hp
    rw [hlen, hls, hw.len, List.length_erase_of_mem hp]
    omega

lemma words_setCell (f : FileId) (x : Nat) (stat : Blk) : (h.setCell f x stat).words = h.words := by
  funext g
  by_cases hg : g = f
  · subst hg
    simp [words, setCell, setMap2]
  · simp [words, setCell, setMap2, hg]

lemma words_congr (hfl : h'.files = h.files) : h'.words = h.words := by
  funext f
  rw [words, words, hfl]

/-- What `overlap_divide` does to the segment `e` for the range `[s, t)`. -/
structure Divided (hash : KeyHash) (h h' : History) (e : Extent FileId FioUnique)
    (s t : Nat) : Prop where
  wf : Wf hash h'
  extents_eq : h'.extents = Extents.cut h.extents e s t
  files_eq : h'.files = if t < e.stop then (h.setCell e.key t .start).files else h.files
  unlisted : ∀ {q ipo}, h.heap q = some ipo → h.live q = none →
    h'.heap q = some ipo ∧ h'.live q = none

abbrev Cuts (hash : KeyHash) (o : ThreadOptions) (h : History) (ipo : IoPiece)
    (start len : Nat) : Prop :=
  ∃ h', h.overlapDivide hash o ipo.file ipo.block start len = .ok h' ∧
    Divided hash h h' ipo.extent start (start + len)

lemma ne_of_not_live (hp : h.live p = some ipo) (hq : h.live q = none) : q ≠ p := by
  rintro rfl
  rw [hp] at hq
  cases hq

section

variable (hw : Wf hash h) (hp : h.live p = some ipo)

include hw hp

lemma Wf.shift (hs : start ≤ ipo.block) (ht : ipo.block < start + len)
    (hlt : start + len < ipo.block + ipo.nrBlk) :
    Cuts hash o h ipo start len := by
  have hhp := heap_of_live hp
  obtain ⟨honl, hhsh, hbck, htr, -, hinm⟩ := hw.table.piece hp
  have hfn : h.iohistHashFind hash ⟨ipo.file, ipo.block⟩ = .ok (some p) := hw.iohistHashFind_eq hp
  have hin : start + len < 32 * h.words ipo.file := by omega
  -- the piece while it changes its key, and as it is linked again
  let moving : IoPiece :=
    { ipo with nrBlk := ipo.block + ipo.nrBlk - (start + len), block := start + len }
  let moved : IoPiece :=
    { moving with hashed := true, hashList := some (hash ⟨ipo.file, start + len⟩) }
  have hwth : ∀ f x, moved.extent.Covers f x → ipo.extent.Covers f x := fun f x hc =>
    ((covers_after (e := ipo.extent) (t := start + len) ht.le).1 hc).1
  have hfr : ∀ f x, moved.extent.Covers f x →
      ¬Extents.Owned (extentsOf (update h.live p none)) f x := by
    rintro f x hc ⟨e, he, hc'⟩
    rw [extentsOf_update_none hw.table hp] at he
    exact he.2 (hw.table.valid.disjoint he.1 ⟨p, ipo, hp, rfl⟩ hc' (hwth f x hc))
  have hrmv := hw.table.remove hp
  have hmv : PieceOk hash h.words moved :=
    ⟨honl, rfl, rfl, htr, by simp only [moved, moving]; omega,
      by simp only [moved, moving]; omega⟩
  have htb := hrmv.add (update_self ..) hmv hfr
  rw [update_idem] at htb
  obtain ⟨h', hr, hls, hhp', had, hlen, htre, hfl, hhs⟩ : ∃ h',
      h.overlapDivide hash o ipo.file ipo.block start len = .ok h' ∧
      h'.ioHistList = h.ioHistList ∧ h'.heap = update h.heap p (some moved) ∧
      h'.nextAddr = h.nextAddr ∧ h'.ioHistLen = h.ioHistLen ∧ h'.ioHistTree = h.ioHistTree ∧
      h'.files = (h.setCell ipo.file (start + len) .start).files ∧
      TableOk hash h.words (update h.live p (some moved)) h'.iohistHash := by
    have hmvn : (h.setPiece p moving).heap p = some moving := update_self ..
    simp only [overlapDivide, hfn, deref_eq hhp, bind, Except.bind]
    rw [if_pos hs, if_pos hlt, iohistHashDel_eq hmvn hhsh hbck]
    dsimp only
    rw [setBit_eq (by exact hin)]
    dsimp only
    rw [iohistHashAdd_eq hash (update_self ..) rfl]
    · exact ⟨_, rfl, rfl, (update_idem ..).trans (update_idem ..), rfl, rfl, rfl, rfl, htb⟩
    · intro q hq
      obtain ⟨piece, hpc, -⟩ := hrmv.bucket.1 hq
      have hqp : q ≠ p := by
        rintro rfl
        rw [update_self] at hpc
        cases hpc
      rw [update_of_ne hqp] at hpc
      refine ⟨piece, ?_, fun hkey => hqp ?_⟩
      · exact (update_of_ne hqp ..).trans ((update_of_ne hqp ..).trans (heap_of_live hpc))
      · exact hw.table.eq_of_key hp ⟨rfl, ht.le, hlt⟩ hpc hkey
  obtain ⟨hwf, hlv⟩ := hw.of_setPiece h' (mem_of_live hp) hls hhp' had hlen htre
    ((words_congr hfl).trans (words_setCell ..)) hhs
  refine ⟨h', hr, hwf, ?_, ?_, ?_⟩
  · rw [extents, hlv, extentsOf_update_some hw.table hp, Extents.cut, outside_eq_after hs hlt,
      Set.union_singleton]
    rfl
  · rw [if_pos (by exact hlt), hfl]
    rfl
  · intro q ipo' hq hnot
    have hqp := ne_of_not_live hp hnot
    rw [hhp', hlv, update_of_ne hqp, update_of_ne hqp]
    exact ⟨hq, hnot⟩

lemma Wf.drop (hs : start ≤ ipo.block) (hge : ipo.block + ipo.nrBlk ≤ start + len) :
    Cuts hash o h ipo start len := by
  have hhp := heap_of_live hp
  obtain ⟨honl, hhsh, hbck, -, -, -⟩ := hw.table.piece hp
  have hfn : h.iohistHashFind hash ⟨ipo.file, ipo.block⟩ = .ok (some p) := hw.iohistHashFind_eq hp
  obtain ⟨h', hr, hls, hhp', had, hlen, htr, hfl, hhs⟩ : ∃ h',
      h.overlapDivide hash o ipo.file ipo.block start len = .ok h' ∧
      h'.ioHistList = h.ioHistList.erase p ∧ h'.heap = update h.heap p none ∧
      h'.nextAddr = h.nextAddr ∧ h'.ioHistLen = h.ioHistLen - 1 ∧ h'.ioHistTree = h.ioHistTree ∧
      h'.files = h.files ∧
      TableOk hash h.words (update h.live p none) h'.iohistHash := by
    simp only [overlapDivide, hfn, deref_eq hhp, bind, Except.bind]
    rw [if_pos hs, if_neg (by omega), iohistHashDel_eq hhp hhsh hbck]
    dsimp only
    rw [deref_eq (update_self ..)]
    dsimp only
    rw [if_pos honl]
    exact ⟨_, rfl, rfl, update_idem .., rfl, rfl, rfl, rfl, hw.table.remove hp⟩
  have hoth : ∀ q, q ≠ p → h'.heap q = h.heap q := fun q hqp => by
    rw [hhp', update_of_ne hqp]
  obtain ⟨hwf, hlv⟩ := hw.of_erase h' (mem_of_live hp) hls hoth had hlen htr (words_congr hfl) hhs
  refine ⟨h', hr, hwf, ?_, ?_, ?_⟩
  · rw [extents, hlv, extentsOf_update_none hw.table hp, Extents.cut, outside_eq_empty hs hge,
      Set.union_empty]
    rfl
  · rw [if_neg (by simp only [stop, IoPiece.extent]; omega), hfl]
  · intro q ipo' hq hnot
    have hqp := ne_of_not_live hp hnot
    rw [hoth q hqp, hlv, update_of_ne hqp]
    exact ⟨hq, hnot⟩

lemma Wf.split (hs : ipo.block < start) (hlt : start + len < ipo.block + ipo.nrBlk) :
    Cuts hash o h ipo start len := by
  have hhp := heap_of_live hp
  obtain ⟨honl, hhsh, hbck, htri, -, hinm⟩ := hw.table.piece hp
  have hfn : h.iohistHashFind hash ⟨ipo.file, ipo.block⟩ = .ok (some p) := hw.iohistHashFind_eq hp
  have hin : start + len < 32 * h.words ipo.file := by omega
  have hqp : h.nextAddr ≠ p := by
    have := hw.fresh hhp
    omega
  have hql := hw.not_live_of_fresh (le_refl h.nextAddr)
  let head : IoPiece := { ipo with nrBlk := start - ipo.block }
  let tail : IoPiece :=
    { initIpo with
      file := ipo.file, block := start + len, nrBlk := ipo.block + ipo.nrBlk - (start + len),
      uniqueVersion := o.uniqueOps.copy ipo.uniqueVersion }
  have hshr := hw.table.shrink hp (n := start - ipo.block) (by omega) (by omega)
  have hfre : ∀ f x, (linked hash tail).extent.Covers f x →
      ¬Extents.Owned (extentsOf (update h.live p (some head))) f x := by
    rintro f x hc ⟨e, he, hc'⟩
    have hin' := (covers_after (e := ipo.extent) (t := start + len) (by
      simp only [IoPiece.extent]; omega)).1 hc
    rw [extentsOf_update_some hw.table hp] at he
    rcases he with rfl | he
    · have := ((covers_before (e := ipo.extent) (s := start) (by
        simp only [IoPiece.extent, stop]; omega)).1 hc').2
      omega
    · exact he.2 (hw.table.valid.disjoint he.1 ⟨p, ipo, hp, rfl⟩ hc' hin'.1)
  have htl : PieceOk hash h.words (linked hash tail) :=
    ⟨rfl, rfl, rfl, rfl, by simp only [linked, tail]; omega, by simp only [linked, tail]; omega⟩
  have htb := hshr.add (p := h.nextAddr) (by rw [update_of_ne hqp, hql]) htl hfre
  obtain ⟨h', hr, hls, hhp', had, hlen, htr, hfl, hhs⟩ : ∃ h',
      h.overlapDivide hash o ipo.file ipo.block start len = .ok h' ∧
      h'.ioHistList = h.ioHistList ++ [h.nextAddr] ∧
      h'.heap = update (update h.heap p (some head)) h.nextAddr
        (some (linked hash tail)) ∧
      h'.nextAddr = h.nextAddr + 1 ∧ h'.ioHistLen = h.ioHistLen + 1 ∧
      h'.ioHistTree = h.ioHistTree ∧
      h'.files = (h.setCell ipo.file (start + len) .start).files ∧
      h'.iohistHash = update h.iohistHash (hash tail.key)
        (h.iohistHash (hash tail.key) ++ [h.nextAddr]) := by
    simp only [overlapDivide, hfn, deref_eq hhp, bind, Except.bind]
    rw [if_neg (by omega), if_pos hlt, setBit_eq (by exact hin)]
    dsimp only
    have htl' : (h.malloc tail).heap h.nextAddr = some tail := update_self ..
    rw [linkSegment_eq hash (by exact htl') rfl]
    · simp only [deref, setCell, setMap2, malloc, update_of_ne hqp.symm, hhp]
      refine ⟨_, rfl, rfl, ?_, rfl, rfl, rfl, rfl, rfl⟩
      simp only [setPiece, update_idem]
      exact update_comm hqp ..
    · intro q hq
      obtain ⟨piece, hpc, -⟩ := hw.table.bucket.1 hq
      have hq' : q ≠ h.nextAddr := by
        have := hw.fresh (heap_of_live hpc)
        omega
      refine ⟨piece, (update_of_ne hq' ..).trans (heap_of_live hpc), fun hkey => ?_⟩
      obtain rfl := hw.table.eq_of_key hp ⟨rfl, by simp only [IoPiece.extent]; omega, hlt⟩ hpc hkey
      rw [hp] at hpc
      cases hpc
      have hblk : ipo.block = start + len := congrArg IohistKey.block hkey
      omega
  obtain ⟨hwf1, hlv1⟩ := hw.of_setPiece (h.setPiece p head) (mem_of_live hp) rfl rfl rfl rfl
    rfl rfl hshr
  have hfr : h.nextAddr ∉ h.ioHistList := fun hmem => by
    obtain ⟨piece, hpc⟩ := hw.live_of_mem hmem
    rw [hql] at hpc
    cases hpc
  obtain ⟨hwf, hlv⟩ := hwf1.of_append (p := h.nextAddr) h' hfr hls hhp'
    (by rw [had]; exact Nat.le_succ _) (by omega) hlen htr
    ((words_congr hfl).trans (words_setCell ..)) (by rw [hlv1, hhs]; exact htb)
  refine ⟨h', hr, hwf, ?_, ?_, ?_⟩
  · have hno : (h.setPiece p head).live h.nextAddr = none := by
      rw [hlv1, update_of_ne hqp, hql]
    rw [extents, hlv, extentsOf_update_new hno, hlv1, extentsOf_update_some hw.table hp,
      Extents.cut, outside_eq_pair hs hlt, Set.union_insert, Set.union_singleton,
      Set.insert_comm]
    rfl
  · rw [if_pos (by exact hlt), hfl]
    rfl
  · intro q ipo' hq hnot
    have hqp' := ne_of_not_live hp hnot
    have hq' : q ≠ h.nextAddr := by
      have := hw.fresh hq
      omega
    rw [hhp', hlv, hlv1, update_of_ne hq', update_of_ne hqp', update_of_ne hq', update_of_ne hqp']
    exact ⟨hq, hnot⟩

lemma Wf.trim (hs : ipo.block < start) (hs' : start < ipo.block + ipo.nrBlk)
    (hge : ipo.block + ipo.nrBlk ≤ start + len) :
    Cuts hash o h ipo start len := by
  have hhp := heap_of_live hp
  have hfn : h.iohistHashFind hash ⟨ipo.file, ipo.block⟩ = .ok (some p) := hw.iohistHashFind_eq hp
  let head : IoPiece := { ipo with nrBlk := start - ipo.block }
  have hr : h.overlapDivide hash o ipo.file ipo.block start len = .ok (h.setPiece p head) := by
    simp only [overlapDivide, hfn, deref_eq hhp, bind, Except.bind]
    rw [if_neg (by omega), if_neg (by omega)]
    simp only [pure, Except.pure, deref_eq hhp]
    rfl
  obtain ⟨hwf, hlv⟩ := hw.of_setPiece (h.setPiece p head) (mem_of_live hp) rfl rfl rfl rfl
    rfl rfl (hw.table.shrink hp (by omega) (by omega))
  refine ⟨_, hr, hwf, ?_, ?_, ?_⟩
  · rw [extents, hlv, extentsOf_update_some hw.table hp, Extents.cut, outside_eq_before hs hge,
      Set.union_singleton]
    rfl
  · rw [if_neg (by simp only [stop, IoPiece.extent]; omega)]
    rfl
  · intro q ipo' hq hnot
    have hqp := ne_of_not_live hp hnot
    rw [hlv, update_of_ne hqp]
    exact ⟨(update_of_ne hqp ..).trans hq, hnot⟩

/-- **`overlap_divide` cuts**: for a range that meets the listed segment at `block` no assertion
    fails, and the segment is cut back to what lies outside the range. -/
lemma Wf.overlapDivide_spec (start len : Nat) (hs : start < ipo.block + ipo.nrBlk)
    (ht : ipo.block < start + len) :
    ∃ h', h.overlapDivide hash o ipo.file ipo.block start len = .ok h' ∧
      Divided hash h h' ipo.extent start (start + len) := by
  by_cases hle : start ≤ ipo.block <;> by_cases hlt : start + len < ipo.block + ipo.nrBlk
  · exact hw.shift hp hle ht hlt
  · exact hw.drop hp hle (by omega)
  · exact hw.split hp (by omega) hlt
  · exact hw.trim hp (by omega) hs (by omega)

end

end History

end FioSsd
