import FioSsd.History.Ops

/-! # What the history operations can do -/

namespace FioSsd

open Function Except

variable {stat : Blk} {ipo piece : IoPiece} {key : IohistKey} {bucket nodes : List Nat} {pos : Pos}

section Buckets

variable {buckets : Nat → List Nat} {p q b c : Nat}

lemma mem_unlink_of_ne (h : q ≠ p) :
    q ∈ update buckets b ((buckets b).erase p) c ↔ q ∈ buckets c := by
  by_cases hc : c = b
  · subst hc
    rw [update_self, List.mem_erase_of_ne h]
  · rw [update_of_ne hc]

lemma mem_link :
    q ∈ update buckets b (buckets b ++ [p]) c ↔ q ∈ buckets c ∨ q = p ∧ c = b := by
  by_cases hc : c = b
  · subst hc
    simp
  · simp [hc]

lemma nodup_unlink (h : ∀ b, (buckets b).Nodup) (c : Nat) :
    (update buckets b ((buckets b).erase p) c).Nodup := by
  by_cases hc : c = b
  · subst hc
    rw [update_self]
    exact (h c).erase p
  · rw [update_of_ne hc]
    exact h c

lemma nodup_link (h : ∀ b, (buckets b).Nodup) (hp : p ∉ buckets b) (c : Nat) :
    (update buckets b (buckets b ++ [p]) c).Nodup := by
  by_cases hc : c = b
  · subst hc
    rw [update_self]
    exact List.nodup_append.2 ⟨h c, by simp, by rintro a ha b hb rfl; simp_all⟩
  · rw [update_of_ne hc]
    exact h c

end Buckets

end FioSsd

namespace FioSsd.History

variable {hash : KeyHash} {o : ThreadOptions} {h h' : History} {p q : Nat} {f : FileId}

lemma heap_of_deref (hder : h.deref p = .ok ipo) : h.heap p = some ipo := by
  unfold deref at hder
  split at hder
  · rwa [← Except.ok.inj hder]
  · cases hder

lemma setBit_cases (hr : h.setBit f pos stat = .ok h') : ∃ m, h' = h.setMap2 f m := by
  obtain ⟨m, -, hr⟩ := of_bind hr
  exact ⟨m, (Except.ok.inj hr).symm⟩

lemma mem_of_hashFindIn (hr : h.hashFindIn key bucket = .ok (some q)) : q ∈ bucket := by
  induction bucket with
  | nil => simp [hashFindIn] at hr
  | cons r rest ih =>
    obtain ⟨piece, -, hr⟩ := of_bind hr
    split_ifs at hr
    · obtain rfl : r = q := by simpa using Except.ok.inj hr
      exact List.mem_cons_self
    · exact List.mem_cons_of_mem _ (ih hr)

lemma key_of_hashFindIn
    (hr : h.hashFindIn key bucket = .ok (some q)) (hipo : h.heap q = some ipo) : ipo.key = key := by
  induction bucket with
  | nil => simp [hashFindIn] at hr
  | cons r rest ih =>
    obtain ⟨piece, hpc, hr⟩ := of_bind hr
    split_ifs at hr with hkey
    · obtain rfl : r = q := by simpa using Except.ok.inj hr
      cases hipo.symm.trans (heap_of_deref hpc)
      exact hkey
    · exact ih hr

lemma iohistHashDel_cases (hr : h.iohistHashDel p = .ok h') :
    ∃ ipo, h.heap p = some ipo ∧
      (ipo.hashed = false ∧ h' = h ∨
        ∃ b, ipo.hashed = true ∧ ipo.hashList = some b ∧
          h' = { h.setPiece p { ipo with hashed := false, hashList := none } with
            iohistHash := Function.update h.iohistHash b ((h.iohistHash b).erase p) }) := by
  obtain ⟨ipo, hder, hr⟩ := of_bind hr
  refine ⟨ipo, heap_of_deref hder, ?_⟩
  split_ifs at hr with hhsh
  · cases hb : ipo.hashList with
    | none => simp [hb] at hr
    | some b =>
      simp only [hb] at hr
      exact .inr ⟨b, hhsh, rfl, (Except.ok.inj hr).symm⟩
  · exact .inl ⟨by simpa using hhsh, (Except.ok.inj hr).symm⟩

lemma iohistHashAdd_cases (hr : h.iohistHashAdd hash p = .ok h') :
    ∃ ipo, h.heap p = some ipo ∧
      (ipo.hashed = true ∧ h' = h ∨
        ipo.hashed = false ∧ (∃ q, q ∈ h.iohistHash (hash ipo.key)) ∧
          h' = h.setPiece p { ipo with hashList := none } ∨
        ipo.hashed = false ∧
          h' = { h.setPiece p { ipo with hashed := true, hashList := some (hash ipo.key) } with
            iohistHash := Function.update h.iohistHash (hash ipo.key)
              (h.iohistHash (hash ipo.key) ++ [p]) }) := by
  obtain ⟨ipo, hder, hr⟩ := of_bind hr
  refine ⟨ipo, heap_of_deref hder, ?_⟩
  by_cases hhsh : ipo.hashed
  · rw [if_pos hhsh] at hr
    exact .inl ⟨hhsh, (Except.ok.inj hr).symm⟩
  · have hnot : ipo.hashed = false := by simpa using hhsh
    rw [if_neg hhsh] at hr
    obtain ⟨found, hfn, hr⟩ := of_bind hr
    cases found with
    | some r => exact .inr (.inl ⟨hnot, ⟨r, mem_of_hashFindIn hfn⟩, (Except.ok.inj hr).symm⟩)
    | none => exact .inr (.inr ⟨hnot, (Except.ok.inj hr).symm⟩)

structure SameQueues (h h' : History) : Prop where
  tree : h'.ioHistTree = h.ioHistTree
  list : h'.ioHistList = h.ioHistList
  len : h'.ioHistLen = h.ioHistLen
  trim : h'.trimList = h.trimList
  fileMap : ∀ g, (h'.files g).fileMap = (h.files g).fileMap

lemma setBit_queues (hr : h.setBit f pos stat = .ok h') : SameQueues h h' := by
  obtain ⟨m, rfl⟩ := setBit_cases hr
  refine ⟨rfl, rfl, rfl, rfl, fun g => ?_⟩
  by_cases hg : g = f
  · subst hg
    simp [setMap2]
  · simp [setMap2, Function.update_of_ne hg]

lemma iohistHashDel_queues (hr : h.iohistHashDel p = .ok h') : SameQueues h h' := by
  obtain ⟨ipo, -, ⟨-, rfl⟩ | ⟨b, -, -, rfl⟩⟩ := iohistHashDel_cases hr
  all_goals exact ⟨rfl, rfl, rfl, rfl, fun _ => rfl⟩

lemma iohistHashAdd_queues (hr : h.iohistHashAdd hash p = .ok h') : SameQueues h h' := by
  obtain ⟨ipo, -, ⟨-, rfl⟩ | ⟨-, -, rfl⟩ | ⟨-, rfl⟩⟩ := iohistHashAdd_cases hr
  all_goals exact ⟨rfl, rfl, rfl, rfl, fun _ => rfl⟩

lemma linkSegment_cases (hr : h.linkSegment hash p = .ok h') :
    ∃ h1 ipo, h.iohistHashAdd hash p = .ok h1 ∧ h1.heap p = some ipo ∧
      h' = { h1.setPiece p { ipo with onList := true } with
        ioHistList := h1.ioHistList ++ [p], ioHistLen := h1.ioHistLen + 1 } := by
  obtain ⟨h1, hadd, hr⟩ := of_bind hr
  obtain ⟨ipo, hder, hr⟩ := of_bind hr
  exact ⟨h1, ipo, hadd, heap_of_deref hder, (Except.ok.inj hr).symm⟩

lemma linkSegment_queues (hr : h.linkSegment hash p = .ok h') :
    h'.ioHistTree = h.ioHistTree ∧ h'.ioHistList = h.ioHistList ++ [p] ∧
      h'.ioHistLen = h.ioHistLen + 1 ∧ h'.trimList = h.trimList ∧
      ∀ g, (h'.files g).fileMap = (h.files g).fileMap := by
  obtain ⟨h1, ipo, hadd, -, rfl⟩ := linkSegment_cases hr
  have hq := iohistHashAdd_queues hadd
  simp [setPiece, hq.tree, hq.list, hq.len, hq.trim, hq.fileMap]

lemma removeTrimEntry_cases (hr : h.removeTrimEntry p = .ok h') :
    ∃ ipo, h.heap p = some ipo ∧
      (ipo.trimList = false ∧ h' = h ∨
        ipo.trimList = true ∧ h' = { h.setPiece p { ipo with trimList := false } with
          trimList := h.trimList.erase p, trimEntries := h.trimEntries - 1 }) := by
  obtain ⟨ipo, hder, hr⟩ := of_bind hr
  refine ⟨ipo, heap_of_deref hder, ?_⟩
  split_ifs at hr with htr
  · exact .inr ⟨htr, (Except.ok.inj hr).symm⟩
  · exact .inl ⟨by simpa using htr, (Except.ok.inj hr).symm⟩

variable (hash o) in
inductive Divides (h : History) (f : FileId) (block start len q : Nat) (ipo : IoPiece) :
    History → Prop
  | shift {h₁ h₂ h' : History} : start ≤ block → start + len < block + ipo.nrBlk →
      (h.setPiece q { ipo with
        nrBlk := block + ipo.nrBlk - (start + len), block := start + len }).iohistHashDel q = .ok h₁ →
      h₁.setBit f (.ofBlock (start + len)) .start = .ok h₂ → h₂.iohistHashAdd hash q = .ok h' →
      Divides h f block start len q ipo h'
  | drop {h₁ : History} {ipo₁ : IoPiece} : start ≤ block → block + ipo.nrBlk ≤ start + len →
      h.iohistHashDel q = .ok h₁ → h₁.heap q = some ipo₁ → ipo₁.onList = true →
      Divides h f block start len q ipo { h₁.freePiece q with
        ioHistList := h₁.ioHistList.erase q, ioHistLen := h₁.ioHistLen - 1 }
  | split {h₁ h₂ : History} {ipo₂ : IoPiece} : block < start → start + len < block + ipo.nrBlk →
      (h.malloc { initIpo with
        file := f, block := start + len, nrBlk := block + ipo.nrBlk - (start + len)
        uniqueVersion := o.uniqueOps.copy ipo.uniqueVersion }).setBit f (.ofBlock (start + len))
          .start = .ok h₁ →
      h₁.linkSegment hash h.nextAddr = .ok h₂ → h₂.heap q = some ipo₂ →
      Divides h f block start len q ipo (h₂.setPiece q { ipo₂ with nrBlk := start - block })
  | trim : block < start → block + ipo.nrBlk ≤ start + len →
      Divides h f block start len q ipo (h.setPiece q { ipo with nrBlk := start - block })

lemma overlapDivide_cases {block start len : Nat}
    (hr : h.overlapDivide hash o f block start len = .ok h') :
    ∃ q ipo, q ∈ h.iohistHash (hash ⟨f, block⟩) ∧ h.heap q = some ipo ∧ ipo.key = ⟨f, block⟩ ∧
      Divides hash o h f block start len q ipo h' := by
  obtain ⟨found, hfn, hr⟩ := of_bind hr
  cases found with
  | none => simp at hr
  | some q =>
    obtain ⟨ipo, hder, hr⟩ := of_bind hr
    have hq := heap_of_deref hder
    refine ⟨q, ipo, mem_of_hashFindIn hfn, hq, key_of_hashFindIn hfn hq, ?_⟩
    by_cases hst : start ≤ block
    · rw [if_pos hst] at hr
      by_cases hend : start + len < block + ipo.nrBlk
      · rw [if_pos hend] at hr
        obtain ⟨h1, hdel, hr⟩ := of_bind hr
        obtain ⟨h2, hbit, hr⟩ := of_bind hr
        exact .shift hst hend hdel hbit hr
      · rw [if_neg hend] at hr
        obtain ⟨h1, hdel, hr⟩ := of_bind hr
        obtain ⟨ipo1, hdr1, hr⟩ := of_bind hr
        by_cases honl : ipo1.onList = true
        · rw [if_pos honl] at hr
          cases hr
          exact .drop hst (by omega) hdel (heap_of_deref hdr1) honl
        · rw [if_neg honl] at hr
          cases hr
    · rw [if_neg hst] at hr
      by_cases hend : start + len < block + ipo.nrBlk
      · rw [if_pos hend] at hr
        obtain ⟨h1, hbit, hr⟩ := of_bind hr
        obtain ⟨h2, hln, hr⟩ := of_bind hr
        obtain ⟨ipo2, hdr2, hr⟩ := of_bind hr
        cases hr
        exact .split (by omega) hend hbit hln (heap_of_deref hdr2)
      · rw [if_neg hend] at hr
        obtain ⟨h1, heq, hr⟩ := of_bind hr
        cases heq
        obtain ⟨ipo2, hdr2, hr⟩ := of_bind hr
        cases hr
        cases hq.symm.trans (heap_of_deref hdr2)
        exact .trim (by omega) (by omega)

section Preserves

variable {overlap : History → FileId → Nat → Nat → Nat → Except Fault History}
  {I : History → Prop} {block nrBlk : Nat}
  (hover : ∀ {h h' : History} {b : Nat}, I h → overlap h f b block nrBlk = .ok h' → I h')
  (hbit : ∀ {h h' : History} {pos : Pos} {stat : Blk}, I h → h.setBit f pos stat = .ok h' → I h')

include hover hbit

lemma insertSegLoop_preserves {left : Nat} :
    ∀ {pos : Pos} {h h' : History}, I h → insertSegLoop overlap f block nrBlk left pos h = .ok h' →
      I h' := by
  induction left with
  | zero =>
    intro pos h h' hI hr
    cases hr
    exact hI
  | succ left ih =>
    intro pos h h' hI hr
    obtain ⟨isStart, -, hr⟩ := of_bind hr
    split_ifs at hr
    · obtain ⟨h1, hdvd, hr⟩ := of_bind hr
      obtain ⟨h2, hset, hr⟩ := of_bind hr
      exact ih (hbit (hover hI hdvd) hset) hr
    · obtain ⟨h1, heq, hr⟩ := of_bind hr
      cases heq
      obtain ⟨h2, hset, hr⟩ := of_bind hr
      exact ih (hbit hI hset) hr

lemma insertSeg_preserves (hI : I h) (hr : h.insertSeg overlap f block nrBlk = .ok h') : I h' := by
  obtain ⟨cell, -, hr⟩ := of_bind hr
  have hrs : ∀ {h1}, I h1 → (do
      let h ← h1.setBit f (.ofBlock block) .start
      insertSegLoop overlap f block nrBlk (nrBlk - 1) (Pos.ofBlock block).next h) = .ok h' →
      I h' := by
    intro h1 hI1 hrn1
    obtain ⟨h2, hset, hrn1⟩ := of_bind hrn1
    exact insertSegLoop_preserves hover hbit (hbit hI1 hset) hrn1
  cases cell with
  | empty | err =>
    obtain ⟨h1, heq, hr⟩ := of_bind hr
    cases heq
    exact hrs hI hr
  | start =>
    obtain ⟨h1, hdvd, hr⟩ := of_bind hr
    exact hrs (hover hI hdvd) hr
  | inSeg =>
    obtain ⟨q, -, hr⟩ := of_bind hr
    obtain ⟨h1, hdvd, hr⟩ := of_bind hr
    exact hrs (hover hI hdvd) hr

end Preserves

lemma mem_of_treeFind (hr : h.treeFind piece nodes = .ok (some q)) : q ∈ nodes := by
  induction nodes with
  | nil => simp [treeFind] at hr
  | cons r rest ih =>
    obtain ⟨node, -, hr⟩ := of_bind hr
    split_ifs at hr
    · obtain rfl : r = q := by simpa using Except.ok.inj hr
      exact List.mem_cons_self
    · exact List.mem_cons_of_mem _ (ih hr)

lemma treeLink_perm {tree : List Nat}
    (hr : h.treeLink p piece nodes = .ok tree) : tree.Perm (p :: nodes) := by
  induction nodes generalizing tree with
  | nil =>
    cases hr
    exact .refl _
  | cons r rest ih =>
    obtain ⟨node, -, hr⟩ := of_bind hr
    split_ifs at hr
    · cases hr
      exact .refl _
    · obtain ⟨tail, htl, hr⟩ := of_bind hr
      cases hr
      exact ((ih htl).cons r).trans (.swap p r rest)

lemma treeInsert_cases {fuel : Nat} (hr : treeInsert p (fuel + 1) h = .ok h') :
    ∃ ipo, h.heap p = some ipo ∧
      ((∃ q old h1, q ∈ h.ioHistTree ∧ h.heap q = some old ∧ ipo.len = old.len ∧
          removeTrimEntry { h with ioHistLen := h.ioHistLen - 1, ioHistTree := h.ioHistTree.erase q }
            q = .ok h1 ∧ treeInsert p fuel (h1.freePiece q) = .ok h') ∨
        ∃ tree, tree.Perm (p :: h.ioHistTree) ∧
          h' = { h.setPiece p { ipo with onRb := true } with
            ioHistTree := tree, ioHistLen := h.ioHistLen + 1 }) := by
  obtain ⟨ipo, hder, hr⟩ := of_bind hr
  refine ⟨ipo, heap_of_deref hder, ?_⟩
  obtain ⟨found, hfn, hr⟩ := of_bind hr
  cases found with
  | some q =>
    obtain ⟨old, hold, hr⟩ := of_bind hr
    by_cases hlen : ipo.len = old.len
    · rw [if_pos hlen] at hr
      obtain ⟨h1, hrmv, hr⟩ := of_bind hr
      exact .inl ⟨q, old, h1, mem_of_treeFind hfn, heap_of_deref hold, hlen, hrmv, hr⟩
    · rw [if_neg hlen] at hr
      cases hr
  | none =>
    obtain ⟨tree, hln, hr⟩ := of_bind hr
    exact .inr ⟨tree, treeLink_perm hln, (Except.ok.inj hr).symm⟩

def newPiece (o : ThreadOptions) (f : FileId) (ioU : IoU) : IoPiece :=
  { initIpo with
    file := f
    uniqueVersion := if o.verifyInner then o.uniqueOps.copy ioU.uniqueVersion else ⟨0, 0⟩ }

lemma logIoPiece_cases {ioU : IoU} {r : Nat} (hr : h.logIoPiece hash o ioU r = .ok h') :
    ∃ f, ioU.file = some f ∧
      ((segBranch o (h.files f) = true ∧ ∃ h1,
          ((h.malloc (newPiece o f ioU)).setPiece h.nextAddr { newPiece o f ioU with
            block := blockOf o (h.files f) ioU, nrBlk := nrBlkOf o ioU }).insertSeg
              (overlapDivide hash o) f (blockOf o (h.files f) ioU) (nrBlkOf o ioU) = .ok h1 ∧
          h1.linkSegment hash h.nextAddr = .ok h') ∨
        (segBranch o (h.files f) = false ∧
          (((h.malloc (newPiece o f ioU)).setPiece h.nextAddr { newPiece o f ioU with
            block := ioU.offset.toNat, nrBlk := ioU.buflen.toNat }).drawTrim o h.nextAddr
              { newPiece o f ioU with block := ioU.offset.toNat, nrBlk := ioU.buflen.toNat }
              r).linkPiece o h.nextAddr f = .ok h')) := by
  unfold logIoPiece at hr
  cases hf : ioU.file with
  | none => simp [hf] at hr
  | some f =>
    rw [hf] at hr
    refine ⟨f, rfl, ?_⟩
    have hnew : (h.malloc (newPiece o f ioU)).deref h.nextAddr = .ok (newPiece o f ioU) := by
      simp [deref, malloc]
    by_cases hseg : segBranch o (h.files f) = true
    · refine .inl ⟨hseg, ?_⟩
      change (if segBranch o (h.files f) then _ else _) = _ at hr
      rw [if_pos hseg] at hr
      obtain ⟨ipo, hder, hr⟩ := of_bind hr
      cases hnew.symm.trans hder
      obtain ⟨h1, hins, hln⟩ := of_bind hr
      exact ⟨h1, hins, hln⟩
    · refine .inr ⟨by simpa using hseg, ?_⟩
      change (if segBranch o (h.files f) then _ else _) = _ at hr
      rw [if_neg hseg] at hr
      obtain ⟨ipo, hder, hr⟩ := of_bind hr
      cases hnew.symm.trans hder
      exact hr

end FioSsd.History
