import FioSsd.History.Cases
import FioSsd.Lib.Extent

/-! # The joint invariant of list, hash table and heap

On the segment path a piece is linked on `io_hist_list` and in one bucket of `iohist_hash` at the
same time, and every operation has to keep the two in step. -/

namespace FioSsd

variable {f : FileId} {key : IohistKey} {x : Nat}

open Function (update update_self update_of_ne)

def IoPiece.extent (ipo : IoPiece) : Extent FileId FioUnique :=
  ⟨ipo.file, ipo.block, ipo.nrBlk, ipo.uniqueVersion⟩

structure PieceOk (hash : KeyHash) (words : FileId → Nat) (ipo : IoPiece) : Prop where
  onList : ipo.onList = true
  hashed : ipo.hashed = true
  bucket : ipo.hashList = some (hash ipo.key)
  trimList : ipo.trimList = false
  pos : 0 < ipo.nrBlk
  inMap : ipo.block + ipo.nrBlk ≤ 32 * words ipo.file

/-- The pieces of `live` are disjoint, and the buckets link exactly them, each by its key. -/
structure TableOk (hash : KeyHash) (words : FileId → Nat) (live : Nat → Option IoPiece)
    (buckets : Nat → List Nat) : Prop where
  piece : ∀ {p ipo}, live p = some ipo → PieceOk hash words ipo
  disjoint : ∀ {p q ipo ipo' f x}, live p = some ipo → live q = some ipo' →
    ipo.extent.Covers f x → ipo'.extent.Covers f x → p = q
  bucket : ∀ {p b}, p ∈ buckets b ↔ ∃ ipo, live p = some ipo ∧ hash ipo.key = b
  nodup : ∀ b, (buckets b).Nodup

def extentsOf (live : Nat → Option IoPiece) : Set (Extent FileId FioUnique) :=
  {e | ∃ p ipo, live p = some ipo ∧ ipo.extent = e}

section Table

variable {hash : KeyHash} {words : FileId → Nat} {live : Nat → Option IoPiece}
  {buckets buckets' : Nat → List Nat} {p q b c : Nat} {ipo ipo' : IoPiece}

lemma mem_unlink (hnd : (buckets b).Nodup) (hp : ∀ c, p ∈ buckets c → c = b) :
    q ∈ update buckets b ((buckets b).erase p) c ↔ q ≠ p ∧ q ∈ buckets c := by
  by_cases hc : c = b
  · subst hc
    rw [update_self, hnd.mem_erase_iff]
  · rw [update_of_ne hc]
    refine ⟨fun h => ⟨?_, h⟩, And.right⟩
    rintro rfl
    exact hc (hp c h)

section

variable (hT : TableOk hash words live buckets)

include hT

lemma TableOk.bucket_eq (hp : live p = some ipo) (h : p ∈ buckets c) : c = hash ipo.key := by
  obtain ⟨ipo', hp', rfl⟩ := hT.bucket.1 h
  rw [hp] at hp'
  rw [Option.some.inj hp']

lemma TableOk.covers_start (h : live p = some ipo) :
    ipo.extent.Covers ipo.file ipo.block :=
  Extent.covers_start (hT.piece h).pos

lemma TableOk.eq_of_key
    (hp : live p = some ipo) (hc : ipo.extent.Covers f x) (hq : live q = some ipo')
    (h : ipo'.key = ⟨f, x⟩) : q = p := by
  simp only [IoPiece.key, IohistKey.mk.injEq] at h
  obtain ⟨rfl, rfl⟩ := h
  exact hT.disjoint hq hp (hT.covers_start hq) hc

lemma TableOk.valid : Extents.Valid (extentsOf live) := by
  refine ⟨?_, ?_⟩
  · rintro e ⟨p, ipo, hp, rfl⟩
    exact (hT.piece hp).pos
  · rintro e e' f x ⟨p, ipo, hp, rfl⟩ ⟨q, ipo', hq, rfl⟩ hc hc'
    obtain rfl := hT.disjoint hp hq hc hc'
    rw [hp] at hq
    rw [Option.some.inj hq]

/-- **One address changes**: the table stays sound if the new piece is, if no other piece shares a
    block with it, and if the buckets follow. -/
lemma TableOk.update {piece : Option IoPiece}
    (hpc : ∀ ipo, piece = some ipo → PieceOk hash words ipo)
    (h : ∀ ipo q ipo' f x, piece = some ipo → q ≠ p → live q = some ipo' →
      ipo.extent.Covers f x → ¬ipo'.extent.Covers f x) (hbck : ∀ q b, q ∈ buckets' b ↔
      q ≠ p ∧ q ∈ buckets b ∨ q = p ∧ ∃ ipo, piece = some ipo ∧ hash ipo.key = b)
    (hnd : ∀ b, (buckets' b).Nodup) : TableOk hash words (update live p piece) buckets' := by
  refine ⟨?_, ?_, ?_, hnd⟩
  · intro q ipo hq
    by_cases hqp : q = p
    · subst hqp
      rw [update_self] at hq
      exact hpc ipo hq
    · rw [update_of_ne hqp] at hq
      exact hT.piece hq
  · intro q r ipo ipo' f x hq hr hc hc'
    by_cases hqp : q = p <;> by_cases hrp : r = p
    · rw [hqp, hrp]
    · subst hqp
      rw [update_self] at hq
      rw [update_of_ne hrp] at hr
      exact absurd hc' (h ipo r ipo' f x hq hrp hr hc)
    · subst hrp
      rw [update_of_ne hqp] at hq
      rw [update_self] at hr
      exact absurd hc (h ipo' q ipo f x hr hqp hq hc')
    · rw [update_of_ne hqp] at hq
      rw [update_of_ne hrp] at hr
      exact hT.disjoint hq hr hc hc'
  · intro q b
    rw [hbck, hT.bucket]
    by_cases hqp : q = p
    · subst hqp
      simp
    · simp [hqp]

lemma TableOk.remove (h : live p = some ipo) :
    TableOk hash words (Function.update live p none)
      (Function.update buckets (hash ipo.key) ((buckets (hash ipo.key)).erase p)) := by
  refine hT.update (by simp) (by simp) (fun q b => ?_) (nodup_unlink hT.nodup)
  rw [mem_unlink (hT.nodup _) fun c hc => hT.bucket_eq h hc]
  simp

lemma TableOk.add (hp : live p = none) (hipo : PieceOk hash words ipo)
    (h : ∀ f x, ipo.extent.Covers f x → ¬Extents.Owned (extentsOf live) f x) :
    TableOk hash words (Function.update live p (some ipo))
      (Function.update buckets (hash ipo.key) (buckets (hash ipo.key) ++ [p])) := by
  have hunl : ∀ b, p ∉ buckets b := by
    intro b hb
    obtain ⟨ipo', hp', -⟩ := hT.bucket.1 hb
    rw [hp] at hp'
    cases hp'
  refine hT.update ?_ ?_ (fun q b => ?_) (nodup_link hT.nodup (hunl _))
  · rintro _ ⟨⟩
    exact hipo
  · rintro _ q ipo' f x ⟨⟩ - hq hc hc'
    exact h f x hc ⟨ipo'.extent, ⟨q, ipo', hq, rfl⟩, hc'⟩
  · rw [mem_link]
    by_cases hqp : q = p
    · subst hqp
      simp [hunl, eq_comm]
    · simp [hqp]

lemma TableOk.shrink (hp : live p = some ipo) {n : Nat} (h : 0 < n) (hle : n ≤ ipo.nrBlk) :
    TableOk hash words (Function.update live p (some { ipo with nrBlk := n })) buckets := by
  obtain ⟨honl, hhsh, hbck, htr, -, hinm⟩ := hT.piece hp
  refine hT.update ?_ ?_ (fun q b => ?_) hT.nodup
  · rintro _ ⟨⟩
    exact ⟨honl, hhsh, hbck, htr, h, by dsimp only; omega⟩
  · rintro _ q ipo' f x ⟨⟩ hqp hq ⟨hf, h1, h2⟩ hc'
    refine hqp (hT.disjoint hq hp hc' ⟨hf, h1, ?_⟩)
    simp only [Extent.stop, IoPiece.extent] at h2 ⊢
    omega
  · by_cases hqp : q = p
    · subst hqp
      rw [hT.bucket]
      simp [hp, IoPiece.key]
    · simp [hqp]

lemma extentsOf_update_none (h : live p = some ipo) :
    extentsOf (update live p none) = extentsOf live \ {ipo.extent} := by
  ext e
  constructor
  · rintro ⟨q, ipo', hq, rfl⟩
    have hqp : q ≠ p := by
      rintro rfl
      simp at hq
    rw [update_of_ne hqp] at hq
    refine ⟨⟨q, ipo', hq, rfl⟩, fun heq => hqp ?_⟩
    have hc := hT.covers_start hq
    rw [Set.mem_singleton_iff.1 heq] at hc
    exact hT.disjoint hq h (hT.covers_start hq) hc
  · rintro ⟨⟨q, ipo', hq, rfl⟩, hne⟩
    have hqp : q ≠ p := by
      rintro rfl
      rw [h] at hq
      exact hne (by rw [Option.some.inj hq]; rfl)
    exact ⟨q, ipo', by rwa [update_of_ne hqp], rfl⟩

end

lemma extentsOf_update_new (h : live p = none) :
    extentsOf (update live p (some ipo)) = insert ipo.extent (extentsOf live) := by
  ext e
  constructor
  · rintro ⟨q, ipo', hq, rfl⟩
    by_cases hqp : q = p
    · subst hqp
      rw [update_self] at hq
      exact .inl (by rw [Option.some.inj hq])
    · rw [update_of_ne hqp] at hq
      exact .inr ⟨q, ipo', hq, rfl⟩
  · rintro (rfl | ⟨q, ipo', hq, rfl⟩)
    · exact ⟨p, ipo, update_self .., rfl⟩
    · have hqp : q ≠ p := by
        rintro rfl
        rw [h] at hq
        cases hq
      exact ⟨q, ipo', by rwa [update_of_ne hqp], rfl⟩

lemma extentsOf_update_some (hT : TableOk hash words live buckets) (h : live p = some ipo) :
    extentsOf (update live p (some ipo')) = insert ipo'.extent (extentsOf live \ {ipo.extent}) := by
  have hid : update (update live p none) p (some ipo') =
      update live p (some ipo') := Function.update_idem ..
  rw [← hid, extentsOf_update_new (update_self ..), extentsOf_update_none hT h]

end Table

namespace History

variable {hash : KeyHash} {o : ThreadOptions} {h : History} {p : Nat} {ipo : IoPiece}

def live (h : History) (p : Nat) : Option IoPiece :=
  if p ∈ h.ioHistList then h.heap p else none

def extents (h : History) : Set (Extent FileId FioUnique) := extentsOf h.live

def words (h : History) (f : FileId) : Nat := (h.files f).fileMap2.words

/-- A history in which every entry came down the segment branch, with all its links in step. -/
structure Wf (hash : KeyHash) (h : History) : Prop where
  nodup : h.ioHistList.Nodup
  allocated : ∀ p ∈ h.ioHistList, ∃ ipo, h.heap p = some ipo
  fresh : ∀ {p ipo}, h.heap p = some ipo → p < h.nextAddr
  len : h.ioHistLen = h.ioHistList.length
  tree : h.ioHistTree = []
  table : TableOk hash h.words h.live h.iohistHash

lemma heap_of_live (hp : h.live p = some ipo) : h.heap p = some ipo := by
  simp only [live] at hp
  split at hp
  · exact hp
  · cases hp

lemma mem_of_live (hp : h.live p = some ipo) : p ∈ h.ioHistList := by
  by_contra hmem
  simp [live, hmem] at hp

lemma Wf.valid (hw : Wf hash h) : Extents.Valid h.extents := hw.table.valid

lemma Wf.live_of_mem (hw : Wf hash h) (hp : p ∈ h.ioHistList) : ∃ ipo, h.live p = some ipo := by
  obtain ⟨ipo, hipo⟩ := hw.allocated p hp
  exact ⟨ipo, by rw [live, if_pos hp, hipo]⟩

lemma Wf.not_live_of_fresh (hw : Wf hash h) (hp : h.nextAddr ≤ p) : h.live p = none := by
  cases hl : h.live p with
  | none => rfl
  | some ipo => exact absurd (hw.fresh (heap_of_live hl)) (by omega)

lemma deref_eq (hp : h.heap p = some ipo) : h.deref p = .ok ipo := by
  rw [deref, hp]

lemma hashFindIn_none : ∀ {l : List Nat},
    (∀ q ∈ l, ∃ ipo, h.heap q = some ipo ∧ ipo.key ≠ key) → h.hashFindIn key l = .ok none := by
  intro l
  induction l with
  | nil => intro _; rfl
  | cons q rest ih =>
    intro hl
    obtain ⟨ipo, hq, hne⟩ := hl q (by simp)
    simp only [hashFindIn, deref_eq hq, bind, Except.bind, if_neg hne]
    exact ih fun r hr => hl r (by simp [hr])

lemma hashFindIn_some : ∀ {l : List Nat}, p ∈ l →
    (∀ q ∈ l, ∃ ipo, h.heap q = some ipo ∧ (ipo.key = key ↔ q = p)) →
    h.hashFindIn key l = .ok (some p) := by
  intro l
  induction l with
  | nil => intro hp _; exact absurd hp (by simp)
  | cons q rest ih =>
    intro hp hl
    obtain ⟨ipo, hq, hkey⟩ := hl q (by simp)
    simp only [hashFindIn, deref_eq hq, bind, Except.bind]
    by_cases hqp : q = p
    · rw [if_pos (hkey.2 hqp), hqp]
      rfl
    · rw [if_neg fun hk => hqp (hkey.1 hk)]
      have hrs := (List.mem_cons.1 hp).resolve_left fun h => hqp h.symm
      exact ih hrs fun r hr => hl r (by simp [hr])

lemma Wf.iohistHashFind_eq (hw : Wf hash h) (hp : h.live p = some ipo) :
    h.iohistHashFind hash ipo.key = .ok (some p) := by
  refine hashFindIn_some (hw.table.bucket.2 ⟨ipo, hp, rfl⟩) fun q hq => ?_
  obtain ⟨ipo', hq', -⟩ := hw.table.bucket.1 hq
  refine ⟨ipo', heap_of_live hq', hw.table.eq_of_key hp (hw.table.covers_start hp) hq', ?_⟩
  rintro rfl
  rw [hp] at hq'
  rw [Option.some.inj hq']

lemma iohistHashDel_eq {b : Nat} (hp : h.heap p = some ipo) (hhsh : ipo.hashed)
    (hb : ipo.hashList = some b) :
    h.iohistHashDel p = .ok { h.setPiece p { ipo with hashed := false, hashList := none } with
      iohistHash := update h.iohistHash b ((h.iohistHash b).erase p) } := by
  simp only [iohistHashDel, deref_eq hp, bind, Except.bind, hhsh, if_true, hb]
  rfl

lemma iohistHashAdd_eq (hash : KeyHash) (hp : h.heap p = some ipo) (hhsh : ipo.hashed = false)
    (hnew : ∀ q ∈ h.iohistHash (hash ipo.key), ∃ ipo', h.heap q = some ipo' ∧ ipo'.key ≠ ipo.key) :
    h.iohistHashAdd hash p =
      .ok { h.setPiece p { ipo with hashed := true, hashList := some (hash ipo.key) } with
        iohistHash := update h.iohistHash (hash ipo.key) (h.iohistHash (hash ipo.key) ++ [p]) } := by
  have hfn : h.iohistHashFind hash ipo.key = .ok none := hashFindIn_none hnew
  simp only [iohistHashAdd, deref_eq hp, bind, Except.bind, hhsh, hfn, Bool.false_eq_true, if_false]
  rfl

def linked (hash : KeyHash) (ipo : IoPiece) : IoPiece :=
  { ipo with hashed := true, hashList := some (hash ipo.key), onList := true }

lemma linkSegment_eq (hash : KeyHash) (hp : h.heap p = some ipo) (hhsh : ipo.hashed = false)
    (hnew : ∀ q ∈ h.iohistHash (hash ipo.key), ∃ ipo', h.heap q = some ipo' ∧ ipo'.key ≠ ipo.key) :
    h.linkSegment hash p = .ok { h with
      heap := update h.heap p (some (linked hash ipo))
      iohistHash := update h.iohistHash (hash ipo.key) (h.iohistHash (hash ipo.key) ++ [p])
      ioHistList := h.ioHistList ++ [p]
      ioHistLen := h.ioHistLen + 1 } := by
  simp only [linkSegment, iohistHashAdd_eq hash hp hhsh hnew, bind, Except.bind]
  rw [deref_eq (update_self ..)]
  simp only [setPiece, Function.update_idem]
  rfl

lemma removeTrimEntry_eq (hp : h.heap p = some ipo) (htr : ipo.trimList = false) :
    h.removeTrimEntry p = .ok h := by
  simp only [removeTrimEntry, deref_eq hp, bind, Except.bind, htr, Bool.false_eq_true, if_false]
  rfl

def setCell (h : History) (f : FileId) (x : Nat) (stat : Blk) : History :=
  h.setMap2 f { (h.files f).fileMap2 with
    cell := Function.update (h.files f).fileMap2.cell x stat }

def cell (h : History) (f : FileId) (x : Nat) : Blk := (h.files f).fileMap2.cell x

lemma setBit_eq (hx : x < 32 * h.words f) (stat : Blk) :
    h.setBit f (.ofBlock x) stat = .ok (h.setCell f x stat) := by
  simp only [History.setBit, Map2.setBit_ofBlock hx, bind, Except.bind]
  rfl

end History

end FioSsd
