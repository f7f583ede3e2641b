import FioSsd.History.Overlap

/-! # Inserting a segment -/

namespace FioSsd

namespace History

open Extents

variable {hash : KeyHash} {o : ThreadOptions} {h h₀ h' : History} {p : Nat} {ipo : IoPiece}
  {f : FileId} {s n k c : Nat}

open Classical in
/-- The cell the pending extents call for: `START` where one starts, `IN` on its other blocks. -/
noncomputable def expected (S : Set (Extent FileId FioUnique)) (f : FileId) (x : Nat) : Blk :=
  if StartsAt S f x then .start else if Owned S f x then .inSeg else .empty

/-- **The segment map is exact**: every cell of every file shows what is pending there. -/
def MapExact (h : History) : Prop :=
  ∀ f x, x < 32 * h.words f → h.cell f x = expected h.extents f x

section Expected

variable {S T : Set (Extent FileId FioUnique)} {x : Nat}

lemma expected_congr (h : StartsAt S f x ↔ StartsAt T f x) (hown : Owned S f x ↔ Owned T f x) :
    expected S f x = expected T f x := by
  rw [expected, propext h, propext hown, expected]

lemma expected_of_startsAt (h : StartsAt S f x) : expected S f x = .start := if_pos h

lemma expected_of_owned (hx : ¬StartsAt S f x) (h : Owned S f x) : expected S f x = .inSeg := by
  rw [expected, if_neg hx, if_pos h]

lemma expected_of_not_owned (hS : Valid S) (hx : ¬Owned S f x) : expected S f x = .empty := by
  rw [expected, if_neg fun h => hx (hS.owned_of_startsAt h), if_neg hx]

lemma expected_eq_start_iff : expected S f x = .start ↔ StartsAt S f x := by
  constructor
  · intro h
    by_contra hx
    rw [expected, if_neg hx] at h
    split at h <;> exact absurd h (by decide)
  · exact expected_of_startsAt

end Expected

def SameButCells (files files' : FileId → FioFile) : Prop :=
  ∀ g, ∃ cell, files' g = { files g with fileMap2 := { (files g).fileMap2 with cell := cell } }

lemma SameButCells.refl (files : FileId → FioFile) : SameButCells files files :=
  fun g => ⟨(files g).fileMap2.cell, rfl⟩

lemma SameButCells.trans {files1 files2 files3 : FileId → FioFile} (h : SameButCells files1 files2)
    (h' : SameButCells files2 files3) : SameButCells files1 files3 := by
  intro g
  obtain ⟨cell, hcl⟩ := h g
  obtain ⟨cell', hcl'⟩ := h' g
  exact ⟨cell', by rw [hcl', hcl]⟩

lemma SameButCells.setMap2 (h : History) (f : FileId) (cell : Nat → Blk) : SameButCells h.files
      (h.setMap2 f { (h.files f).fileMap2 with cell := cell }).files := by
  intro g
  by_cases hg : g = f
  · subst hg
    exact ⟨_, Function.update_self ..⟩
  · exact ⟨(h.files g).fileMap2.cell, Function.update_of_ne hg ..⟩

lemma SameButCells.setCell (h : History) (f : FileId) (x : Nat) (stat : Blk) :
    SameButCells h.files (h.setCell f x stat).files :=
  .setMap2 h f _

lemma SameButCells.words (heq : SameButCells h.files h'.files) : h'.words = h.words := by
  funext g
  obtain ⟨cell, hcl⟩ := heq g
  rw [History.words, hcl]
  rfl

lemma cell_setCell_self (h : History) (f : FileId) (x : Nat) (stat : Blk) :
    (h.setCell f x stat).cell f x = stat := by
  simp [cell, setCell, setMap2]

lemma cell_setCell_of_ne (h : History) {f g : FileId} {x y : Nat} (stat : Blk)
    (hne : ¬(g = f ∧ y = x)) : (h.setCell f x stat).cell g y = h.cell g y := by
  by_cases hg : g = f
  · subst hg
    have hy : y ≠ x := fun hy => hne ⟨rfl, hy⟩
    simp [cell, setCell, setMap2, hy]
  · simp [cell, setCell, setMap2, hg]

/-- The range `[s, s + n)` of `f` is being inserted into `h₀`: its first `c` blocks are free of older
    segments and its first `k` cells are drawn. -/
structure Walk (hash : KeyHash) (h₀ h : History) (f : FileId) (s n k c : Nat) : Prop where
  wf : Wf hash h
  files : SameButCells h₀.files h.files
  below : Below h.extents h₀.extents
  owned : ∀ {g x}, ¬(g = f ∧ s ≤ x ∧ x < s + n) → (Owned h.extents g x ↔ Owned h₀.extents g x)
  cleared : ∀ {x}, s ≤ x → x < s + c → ¬Owned h.extents f x
  exact_outside : ∀ {g x}, x < 32 * h.words g → ¬(g = f ∧ s ≤ x ∧ x < s + n) →
    h.cell g x = expected h.extents g x
  drawn : ∀ {x}, s ≤ x → x < s + k → h.cell f x = if x = s then .start else .inSeg
  ahead : ∀ {x}, s + c ≤ x → x < s + n → (h.cell f x = .start ↔ StartsAt h.extents f x)
  unlisted : ∀ {q ipo}, h₀.heap q = some ipo → h₀.live q = none →
    h.heap q = some ipo ∧ h.live q = none

lemma Walk.begin (hw : Wf hash h) (hexa : MapExact h) (hn : s + n ≤ 32 * h.words f) :
    Walk hash h h f s n 0 0 where
  wf := hw
  files := .refl _
  below := .refl _
  owned _ := Iff.rfl
  cleared _ _ := by omega
  exact_outside hx _ := hexa _ _ hx
  drawn _ _ := by omega
  ahead {x} _ hx := by rw [hexa f x (by omega), expected_eq_start_iff]
  unlisted hq hnot := ⟨hq, hnot⟩

lemma Walk.skip (hW : Walk hash h₀ h f s n k k) (hfr : ¬Owned h.extents f (s + k)) :
    Walk hash h₀ h f s n k (k + 1) :=
  { hW with
    cleared := by
      intro x hx hlt
      by_cases hxk : x = s + k
      · rw [hxk]
        exact hfr
      · exact hW.cleared hx (by omega)
    ahead := fun hx hlt => hW.ahead (by omega) hlt }

lemma Walk.divide (hW : Walk hash h₀ h f s n k k) (hk : k < n) (hp : h.live p = some ipo)
    (hc : ipo.extent.Covers f (s + k)) :
    ∃ h', h.overlapDivide hash o f ipo.block s n = .ok h' ∧ Walk hash h₀ h' f s n k (k + 1) := by
  obtain ⟨rfl, hlow, hhg⟩ := hc
  simp only [IoPiece.extent, Extent.stop] at hlow hhg
  obtain ⟨h', hr, hdiv⟩ := hW.wf.overlapDivide_spec (o := o) hp s n (by omega) (by omega)
  have hvl := hW.wf.valid
  have hmem : ipo.extent ∈ h.extents := ⟨p, ipo, hp, rfl⟩
  have hlt : s < ipo.extent.stop := by simp only [IoPiece.extent, Extent.stop]; omega
  have hlt' : ipo.extent.start < s + n := by simp only [IoPiece.extent]; omega
  have hown : ∀ g x, Owned h'.extents g x ↔
      Owned h.extents g x ∧ ¬(ipo.extent.Covers g x ∧ s ≤ x ∧ x < s + n) := fun g x => by
    rw [hdiv.extents_eq, owned_cut hvl hmem hlt hlt']
  have hstr : ∀ g x, StartsAt h'.extents g x ↔
      StartsAt h.extents g x ∧ ¬(g = ipo.file ∧ x = ipo.block ∧ s ≤ ipo.block) ∨
        g = ipo.file ∧ x = s + n ∧ s + n < ipo.extent.stop := fun g x => by
    rw [hdiv.extents_eq, startsAt_cut hvl hmem hlt hlt']
    rfl
  have hfl : SameButCells h.files h'.files := by
    rw [hdiv.files_eq]
    split
    · exact .setCell _ _ _ _
    · exact .refl _
  have hcl : ∀ g x, ¬(g = ipo.file ∧ x = s + n ∧ s + n < ipo.extent.stop) →
      h'.cell g x = h.cell g x := by
    intro g x hne
    by_cases hcut : s + n < ipo.extent.stop
    · rw [cell, hdiv.files_eq, if_pos hcut]
      exact cell_setCell_of_ne h _ fun hgx => hne ⟨hgx.1, hgx.2, hcut⟩
    · rw [cell, hdiv.files_eq, if_neg hcut]
      rfl
  refine ⟨h', hr, hdiv.wf, hW.files.trans hfl, ?_, ?_, ?_, ?_, ?_, ?_, ?_⟩
  · rw [hdiv.extents_eq]
    exact (below_cut hmem hlt hlt').trans hW.below
  · intro g x hout
    rw [hown, hW.owned hout, and_iff_left]
    exact fun hin => hout ⟨hin.1.1.symm, hin.2⟩
  · intro x hx hxc
    rw [hown]
    rintro ⟨ho, hnot⟩
    by_cases hxk : x = s + k
    · exact hnot ⟨⟨rfl, by simp only [IoPiece.extent]; omega,
        by simp only [IoPiece.extent, Extent.stop]; omega⟩, by omega⟩
    · exact hW.cleared hx (by omega) ho
  · intro g x hx hout
    rw [hfl.words] at hx
    by_cases htl : g = ipo.file ∧ x = s + n ∧ s + n < ipo.extent.stop
    · rw [expected_of_startsAt ((hstr g x).2 (.inr htl))]
      obtain ⟨rfl, rfl, hcut⟩ := htl
      rw [cell, hdiv.files_eq, if_pos hcut]
      exact cell_setCell_self ..
    · rw [hcl g x htl, hW.exact_outside hx hout]
      refine expected_congr ?_ ?_
      · rw [hstr, or_iff_left htl, and_iff_left]
        rintro ⟨rfl, rfl, hle⟩
        exact hout ⟨rfl, hle, by omega⟩
      · rw [hown, and_iff_left]
        exact fun hin => hout ⟨hin.1.1.symm, hin.2⟩
  · intro x hx hxk
    rw [hcl _ x (by omega), hW.drawn hx hxk]
  · intro x hx hxn
    rw [hcl _ x (by omega), hW.ahead (by omega) hxn, hstr, or_iff_left (by omega),
      and_iff_left (by omega)]
  · intro q ipo' hq hnot
    obtain ⟨hq', hnt'⟩ := hW.unlisted hq hnot
    exact hdiv.unlisted hq' hnt'

lemma Walk.draw (hW : Walk hash h₀ h f s n k (k + 1)) (hk : k < n) :
    Walk hash h₀ (h.setCell f (s + k) (if k = 0 then .start else .inSeg)) f s n (k + 1) (k + 1) where
  wf := ⟨hW.wf.nodup, hW.wf.allocated, hW.wf.fresh, hW.wf.len, hW.wf.tree, by
    rw [words_setCell]
    exact hW.wf.table⟩
  files := hW.files.trans (.setCell _ _ _ _)
  below := hW.below
  owned := hW.owned
  cleared := hW.cleared
  exact_outside {g x} hx hout := by
    rw [words_setCell] at hx
    rw [cell_setCell_of_ne _ _ fun hgx => hout ⟨hgx.1, by omega⟩]
    exact hW.exact_outside hx hout
  drawn {x} hx hlt := by
    by_cases hxk : x = s + k
    · subst hxk
      rw [cell_setCell_self]
      by_cases hk0 : k = 0
      · rw [if_pos hk0, if_pos (by omega)]
      · rw [if_neg hk0, if_neg (by omega)]
    · rw [cell_setCell_of_ne _ _ (by omega)]
      exact hW.drawn hx (by omega)
  ahead {x} hx hlt := by
    rw [cell_setCell_of_ne _ _ (by omega)]
    exact hW.ahead hx hlt
  unlisted := hW.unlisted

lemma Walk.not_owned_of_not_start (hW : Walk hash h₀ h f s n k k) (hk : 0 < k)
    (hx : ¬StartsAt h.extents f (s + k)) : ¬Owned h.extents f (s + k) := by
  rintro ⟨e, he, rfl, hlow, hhg⟩
  have hne : e.start ≠ s + k := fun heq => hx ⟨e, he, rfl, heq⟩
  -- `e` would cover the block before, or `s` itself
  have hpr : Owned h.extents e.key (s + k - 1) := ⟨e, he, rfl, by omega, by omega⟩
  exact hW.cleared (by omega) (by omega) hpr

lemma insertSegLoop_succ {overlap : History → FileId → Nat → Nat → Nat → Except Fault History}
    {left : Nat} (hc : c < 32 * h.words f) :
    insertSegLoop overlap f s n (left + 1) (.ofBlock c) h =
      (if h.cell f c = .start then overlap h f c s n else .ok h).bind fun h =>
        (h.setBit f (.ofBlock c) .inSeg).bind fun h =>
          insertSegLoop overlap f s n left (.ofBlock (c + 1)) h := by
  have hblk := Map2.blk_eq hc
  simp only [insertSegLoop, Map2.testBlk_ofBlock hc, bind, Map2.next_ofBlock hc, hblk]
  by_cases hcl : h.cell f c = .start
  · have hcl' : (h.files f).fileMap2.cell c = .start := hcl
    rw [if_pos hcl]
    simp [Except.bind, hcl']
  · have hcl' : (h.files f).fileMap2.cell c ≠ .start := hcl
    rw [if_neg hcl]
    simp only [Except.bind, hcl', decide_false, Bool.false_eq_true, if_false]
    rfl

lemma Walk.insertSegLoop_spec (o : ThreadOptions) (h₀ : History) (f : FileId) (s n : Nat) :
    ∀ (left k : Nat) (h : History), 0 < k → k + left = n → s + n ≤ 32 * h.words f →
      Walk hash h₀ h f s n k k →
      ∃ h', insertSegLoop (overlapDivide hash o) f s n left (.ofBlock (s + k)) h = .ok h' ∧
        Walk hash h₀ h' f s n n n := by
  intro left
  induction left with
  | zero =>
    intro k h _ hkn _ hW
    obtain rfl : k = n := by omega
    exact ⟨h, rfl, hW⟩
  | succ left ih =>
    intro k h hk hkn hn hW
    -- in both branches the walk is ready to draw the cell
    obtain ⟨h1, hr, hW1⟩ : ∃ h1, (if h.cell f (s + k) = .start
          then overlapDivide hash o h f (s + k) s n else .ok h) = .ok h1 ∧
        Walk hash h₀ h1 f s n k (k + 1) := by
      by_cases hcl : h.cell f (s + k) = .start
      · obtain ⟨e, ⟨p, ipo, hp, rfl⟩, rfl, hb⟩ := (hW.ahead (le_refl _) (by omega)).1 hcl
        have hc := hW.wf.table.covers_start hp
        have hb' : ipo.block = s + k := hb
        rw [hb'] at hc
        rw [if_pos hcl, ← hb']
        exact hW.divide (by omega) hp hc
      · refine ⟨h, by rw [if_neg hcl], hW.skip (hW.not_owned_of_not_start hk fun hx => hcl ?_)⟩
        exact (hW.ahead (le_refl _) (by omega)).2 hx
    have hn1 : s + n ≤ 32 * h1.words f := by
      have hwr : h1.words f = h.words f := by
        rw [hW1.files.words, hW.files.words]
      omega
    have hdraw := hW1.draw (by omega)
    rw [if_neg (by omega)] at hdraw
    rw [insertSegLoop_succ (by omega), hr]
    simp only [Except.bind]
    rw [setBit_eq (by omega)]
    exact ih (k + 1) _ (by omega) (by omega) (by rw [words_setCell]; exact hn1) hdraw

lemma MapExact.prevStart_eq (hexa : MapExact h) (hw : Wf hash h) (hp : h.live p = some ipo)
    (hc : ipo.extent.Covers f s) (hs : ¬StartsAt h.extents f s) (hin : s < 32 * h.words f) :
    (h.files f).fileMap2.prevStart (s + 1) (.ofBlock s) = .ok (.ofBlock ipo.block) := by
  obtain ⟨rfl, hlow, hhg⟩ := hc
  have hmem : ipo.extent ∈ h.extents := ⟨p, ipo, hp, rfl⟩
  have hne : ipo.extent.start ≠ s := fun heq => hs ⟨ipo.extent, hmem, rfl, heq⟩
  have hlt : ipo.block < s := lt_of_le_of_ne hlow hne
  refine Map2.prevStart_spec _ ipo.block ?_ (s + 1) s hlt hin.le (by omega) fun x hx hxs => ?_
  · rw [show (h.files ipo.extent.key).fileMap2.cell ipo.block = _ from hexa _ _ (by omega)]
    exact expected_of_startsAt ⟨ipo.extent, hmem, rfl, rfl⟩
  · rw [show (h.files ipo.extent.key).fileMap2.cell x = _ from hexa _ _ (by omega), Ne,
      expected_eq_start_iff]
    rintro ⟨e, he, hkey, rfl⟩
    have hcov : e.Covers ipo.extent.key e.start := by
      rw [← hkey]
      exact Extent.covers_start (hw.valid.pos he)
    have heq := hw.valid.disjoint he hmem hcov ⟨rfl, hx.le, by omega⟩
    rw [heq] at hx
    exact lt_irrefl _ hx

/-- **`insert_seg`** on an exact map: no assertion fails, the walk ends with the range free of older
    segments and drawn as one segment. -/
lemma Wf.insertSeg_spec (hw : Wf hash h) (hexa : MapExact h) (hpos : 0 < n)
    (hn : s + n ≤ 32 * h.words f) :
    ∃ h', h.insertSeg (overlapDivide hash o) f s n = .ok h' ∧ Walk hash h h' f s n n n := by
  have hW := Walk.begin hw hexa hn
  have hin : s < 32 * h.words f := by omega
  have hcl := hexa f s hin
  -- the three states of the first cell; afterwards the walk is ready to draw it
  obtain ⟨h1, hr, hW1⟩ : ∃ h1, h.insertSeg (overlapDivide hash o) f s n =
        (h1.setBit f (.ofBlock s) .start).bind (fun h =>
          insertSegLoop (overlapDivide hash o) f s n (n - 1) (.ofBlock (s + 1)) h) ∧
      Walk hash h h1 f s n 0 1 := by
    simp only [insertSeg, Map2.getBlk_ofBlock hin, bind, Map2.next_ofBlock hin]
    by_cases hst : StartsAt h.extents f s
    · rw [expected_of_startsAt hst] at hcl
      obtain ⟨e, ⟨p, ipo, hp, rfl⟩, rfl, rfl⟩ := hst
      obtain ⟨h1, hdiv, hW1⟩ := hW.divide (o := o) hpos hp (hw.table.covers_start hp)
      refine ⟨h1, ?_, hW1⟩
      rw [show (h.files ipo.extent.key).fileMap2.cell ipo.extent.start = .start from hcl]
      simp only [Except.bind]
      rw [show h.overlapDivide hash o ipo.extent.key ipo.extent.start ipo.extent.start n = .ok h1
        from hdiv]
    · by_cases hown : Owned h.extents f s
      · rw [expected_of_owned hst hown] at hcl
        obtain ⟨e, ⟨p, ipo, hp, rfl⟩, hc⟩ := hown
        obtain ⟨h1, hdiv, hW1⟩ := hW.divide (o := o) hpos hp hc
        refine ⟨h1, ?_, hW1⟩
        rw [show (h.files f).fileMap2.cell s = .inSeg from hcl]
        have hblk : (Pos.ofBlock ipo.block).blk = ipo.block :=
          Map2.blk_eq (m := (h.files f).fileMap2) (lt_of_le_of_lt hc.2.1 hin)
        simp [Except.bind, hexa.prevStart_eq hw hp hc hst hin, hblk, hdiv]
      · rw [expected_of_not_owned hw.valid hown] at hcl
        refine ⟨h, ?_, hW.skip hown⟩
        rw [show (h.files f).fileMap2.cell s = .empty from hcl]
        rfl
  have hdraw := hW1.draw hpos
  rw [if_pos rfl] at hdraw
  have hn1 : s + n ≤ 32 * h1.words f := by
    rw [hW1.files.words]
    exact hn
  rw [hr, setBit_eq (by omega)]
  exact Walk.insertSegLoop_spec o h f s n (n - 1) 1 _ (by omega) (by omega)
    (by rw [words_setCell]; exact hn1) hdraw

end History

end FioSsd
