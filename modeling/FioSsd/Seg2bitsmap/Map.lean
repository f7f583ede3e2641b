import FioSsd.Types

/-! # The segment map

`file_map2` marks for every block of a file whether a logged write starts there (`START`), runs
through it (`IN`), or none is pending (`EMPTY`). -/

namespace FioSsd

open Function

inductive Blk
  | empty | err | start | inSeg
  deriving DecidableEq, Repr

/-- A segment map of `words` words. -/
structure Map2 where
  words : Nat
  words_lt : words < 2 ^ 32
  cell : Nat → Blk

lemma two_words_lt : 2 < 2 ^ 32 := by decide

structure Pos where
  (idx bit : Nat)
  deriving DecidableEq, Repr

namespace Pos

/-- `MAP2_IDX(block)` and `MAP2_BIT(block)`, stored in `unsigned int`s. -/
def ofBlock (block : Nat) : Pos := ⟨block / 32 % 2 ^ 32, block % 32⟩

def blk (p : Pos) : Nat := p.idx * 32 + p.bit

/-- One cell forward: `bit++`, and on to the next word at `BLKS_PER_MAP2`. -/
def next (p : Pos) : Pos :=
  if p.bit + 1 = 32 then ⟨(p.idx + 1) % 2 ^ 32, 0⟩ else ⟨p.idx, p.bit + 1⟩

def prev (p : Pos) : Pos :=
  ⟨if p.bit + 32 > 32 then p.idx else (p.idx + (2 ^ 32 - 1)) % 2 ^ 32, (p.bit + 32 - 1) % 32⟩

lemma blk_ofBlock {c : Nat} (h : c < 32 * 2 ^ 32) : (ofBlock c).blk = c := by
  simp only [ofBlock, blk]
  omega

lemma next_ofBlock {c : Nat} (h : c + 1 < 32 * 2 ^ 32) : (ofBlock c).next = ofBlock (c + 1) := by
  rw [next]
  split_ifs with hla
  all_goals
    simp only [ofBlock, Pos.mk.injEq] at hla ⊢
    omega

lemma blk_next {p : Pos} (h : p.idx + 1 < 2 ^ 32) : p.next.blk = p.blk + 1 := by
  unfold next
  split_ifs with hla
  · simp only [blk, Nat.mod_eq_of_lt h]
    omega
  · simp only [blk]
    omega

lemma prev_ofBlock (c : Nat) : (ofBlock (c + 1)).prev = ofBlock c := by
  rw [prev]
  split_ifs with hfr
  all_goals
    simp only [ofBlock, Pos.mk.injEq] at hfr ⊢
    omega

end Pos

namespace Map2

variable (m : Map2)

def getBlk (p : Pos) : Except Fault Blk :=
  if p.idx < m.words then .ok (m.cell p.blk) else .error .mapOverrun

def testBlk (p : Pos) (stat : Blk) : Except Fault Bool :=
  if p.idx < m.words then .ok (m.cell p.blk = stat) else .error .mapOverrun

def setBit (p : Pos) (stat : Blk) : Except Fault Map2 :=
  if p.idx < m.words then .ok { m with cell := update m.cell p.blk stat }
  else .error .mapOverrun

/-- The loop of `remove_seg`: empty the cell, step forward, go on while inside the segment and below
    word `num`. -/
def removeSegLoop (num : Nat) : Nat → Pos → Map2 → Except Fault Map2
  | 0, _, _ => .error .outOfFuel
  | fuel + 1, p, m => do
    let m ← m.setBit p .empty
    let p := p.next
    if p.idx < num then
      if ← m.testBlk p .inSeg then removeSegLoop num fuel p m else return m
    else return m

def removeSeg (m : Map2) (num block : Nat) : Except Fault Map2 := do
  if ← m.testBlk (.ofBlock block) .start then
    removeSegLoop num (32 * m.words) (.ofBlock block) m
  else .error (.assertFailed .removeSeg)

/-- The backward loop of `insert_seg`: step back until a cell is `START`. -/
def prevStart (m : Map2) : Nat → Pos → Except Fault Pos
  | 0, _ => .error .outOfFuel
  | fuel + 1, p => do
    let p := p.prev
    if ← m.testBlk p .start then return p else m.prevStart fuel p

def clear (num : Nat) : Map2 :=
  { m with cell := fun c => if c < 32 * num then .empty else m.cell c }

section Access

variable {m : Map2} {c : Nat}

section

variable (h : c < 32 * m.words)

include h

lemma idx_lt : (Pos.ofBlock c).idx < m.words := by
  have := m.words_lt
  simp only [Pos.ofBlock]
  omega

lemma blk_eq : (Pos.ofBlock c).blk = c :=
  Pos.blk_ofBlock (by have := m.words_lt; omega)

lemma getBlk_ofBlock : m.getBlk (.ofBlock c) = .ok (m.cell c) := by
  rw [getBlk, if_pos (idx_lt h), blk_eq h]

lemma testBlk_ofBlock (stat : Blk) :
    m.testBlk (.ofBlock c) stat = .ok (decide (m.cell c = stat)) := by
  rw [testBlk, if_pos (idx_lt h), blk_eq h]

lemma setBit_ofBlock (stat : Blk) :
    m.setBit (.ofBlock c) stat = .ok { m with cell := update m.cell c stat } := by
  rw [setBit, if_pos (idx_lt h), blk_eq h]

lemma next_ofBlock : (Pos.ofBlock c).next = Pos.ofBlock (c + 1) := by
  apply Pos.next_ofBlock
  have := m.words_lt
  omega

end

end Access

/-- **What `remove_seg` empties**: a run of cells from `c` on that ends before cell `e`, all but the
    first `IN` and in words below `num`, and as long as possible. -/
lemma removeSegLoop_spec (num : Nat) :
    ∀ (fuel : Nat) (m : Map2) (c : Nat), num ≤ m.words → c < 32 * m.words →
      32 * m.words ≤ c + fuel →
      ∃ e, c < e ∧
        removeSegLoop num fuel (.ofBlock c) m =
          .ok { m with cell := fun x => if c ≤ x ∧ x < e then .empty else m.cell x } ∧
        (∀ x, c < x → x < e → m.cell x = .inSeg ∧ x < 32 * num) ∧
        (m.cell e = .inSeg → 32 * num ≤ e) := by
  intro fuel
  induction fuel with
  | zero => intro m c _ hc hfl; omega
  | succ fuel ih =>
    intro m c hnum hc hfl
    have hst : update m.cell c Blk.empty =
        fun x => if c ≤ x ∧ x < c + 1 then Blk.empty else m.cell x := by
      funext x
      by_cases hx : x = c
      · subst hx; simp
      · rw [update_of_ne hx, if_neg (by omega)]
    simp only [removeSegLoop, setBit_ofBlock hc, bind, Except.bind, next_ofBlock hc]
    split_ifs with hidx
    · have hlt : c + 1 < 32 * num := by
        have := m.words_lt
        simp only [Pos.ofBlock] at hidx
        omega
      have hc1 : c + 1 < 32 * m.words := by omega
      rw [testBlk_ofBlock (m := { m with cell := update m.cell c .empty }) hc1]
      simp only [update_of_ne (show c + 1 ≠ c by omega)]
      by_cases hin : m.cell (c + 1) = .inSeg
      · -- the walk goes on: the cells emptied by the rest of the loop, and `c` before them
        simp only [hin, decide_true, if_true]
        obtain ⟨e, hce, hrun, hseg, hend⟩ :=
          ih { m with cell := update m.cell c .empty } (c + 1) hnum hc1 (by simp; omega)
        refine ⟨e, by omega, ?_, ?_, ?_⟩
        · rw [hrun]
          congr 2
          funext x
          dsimp only
          by_cases hx : x = c
          · subst hx
            rw [if_neg (by omega), if_pos (by omega), update_self]
          · rw [update_of_ne hx]
            by_cases hr : c ≤ x ∧ x < e
            · rw [if_pos (by omega), if_pos hr]
            · rw [if_neg (by omega), if_neg hr]
        · intro x hx1 hx2
          rcases Nat.lt_or_ge (c + 1) x with h | h
          · have := hseg x h hx2
            simpa only [update_of_ne (show x ≠ c by omega)] using this
          · obtain rfl : x = c + 1 := by omega
            exact ⟨hin, hlt⟩
        · simpa only [update_of_ne (show e ≠ c by omega)] using hend
      · simp only [hin, decide_false, Bool.false_eq_true, if_false, pure, Except.pure]
        exact ⟨c + 1, by omega, by rw [hst], by omega, fun h => absurd h hin⟩
    · refine ⟨c + 1, by omega, ?_, by omega, ?_⟩
      · simp only [pure, Except.pure]
        rw [hst]
      · intro _
        have := m.words_lt
        simp only [Pos.ofBlock] at hidx
        omega

lemma removeSeg_spec {m : Map2} {num c : Nat} (hnum : num ≤ m.words) (hc : c < 32 * m.words)
    (h : m.cell c = .start) :
    ∃ e, c < e ∧
      m.removeSeg num c = .ok { m with cell := fun x => if c ≤ x ∧ x < e then .empty else m.cell x } ∧
      (∀ x, c < x → x < e → m.cell x = .inSeg ∧ x < 32 * num) ∧
      (m.cell e = .inSeg → 32 * num ≤ e) := by
  obtain ⟨e, hce, hr, hseg, hend⟩ := removeSegLoop_spec num (32 * m.words) m c hnum hc (by omega)
  refine ⟨e, hce, ?_, hseg, hend⟩
  simp [removeSeg, testBlk_ofBlock hc, h, bind, Except.bind, hr]

lemma prevStart_spec (m : Map2) (s : Nat) (h : m.cell s = .start) :
    ∀ (fuel c : Nat), s < c → c ≤ 32 * m.words → c ≤ s + fuel →
      (∀ x, s < x → x < c → m.cell x ≠ .start) →
      m.prevStart fuel (.ofBlock c) = .ok (.ofBlock s) := by
  intro fuel
  induction fuel with
  | zero => intro c hsc _ hfl _; omega
  | succ fuel ih =>
    intro c hsc hc hfl hbtw
    obtain ⟨d, rfl⟩ : ∃ d, c = d + 1 := ⟨c - 1, by omega⟩
    simp only [prevStart, Pos.prev_ofBlock, bind, Except.bind]
    rw [testBlk_ofBlock (by omega)]
    by_cases hd : d = s
    · subst hd
      simp only [h, decide_true, if_true]
      rfl
    · have hne := hbtw d (by omega) (by omega)
      simp only [hne, decide_false, Bool.false_eq_true, if_false]
      exact ih d (by omega) (by omega) (by omega) (fun x h1 h2 => hbtw x h1 (by omega))

end Map2

end FioSsd
