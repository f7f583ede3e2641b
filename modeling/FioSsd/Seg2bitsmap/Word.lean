import Mathlib.Tactic
import Mathlib.Data.Nat.Bitwise

/-! # The 2-bit cells of one segment-map word

`seg_2bitsmap.c` packs 32 two-bit cells into every `unsigned long` of `file_map2`. -/

namespace FioSsd.MapWord

open BitVec

def intShl (x : BitVec 32) (n : Nat) : Option (BitVec 32) :=
  if n < 32 then some (x <<< n) else none

def blkMask : BitVec 32 := ~~~((~~~0#32) <<< 2)

variable (w : BitVec 64) (bit : Nat)

def getBlk : BitVec 8 :=
  ((w >>> (bit * 2)) &&& blkMask.signExtend 64).setWidth 8

variable (stat : BitVec 8)

/-- `set_bit` on the word `map2[idx]`: clear the cell through the complemented mask, then or the
state in. -/
def setBit : Option (BitVec 64) :=
  match intShl blkMask (bit * 2), intShl (stat.setWidth 32) (bit * 2) with
  | some mask, some value => some ((w &&& (~~~mask).signExtend 64) ||| value.signExtend 64)
  | _, _ => none

/-- `set_bit` writes the addressed cell and nothing else: it has a defined result, and `get_blk`
    reads `stat` from that cell and the previous state from every other. -/
def SetsOnlyCell : Prop :=
  ∃ w', setBit w bit stat = some w' ∧ getBlk w' bit = stat ∧
    ∀ other < 32, other ≠ bit → getBlk w' other = getBlk w other

lemma blkMask_eq : blkMask = 3#32 := by decide

lemma three_getLsbD (i : Nat) : (3#32).getLsbD i = decide (i < 2) := by
  rw [getLsbD_ofNat]
  rcases i with _ | _ | i
  · rfl
  · rfl
  · have h : (3 : Nat).testBit (i + 1 + 1) = false := by simp [Nat.testBit_succ]
    simp [h]

lemma three64_getLsbD (i : Nat) : (BitVec.signExtend 64 3#32).getLsbD i = decide (i < 2) := by
  rw [show BitVec.signExtend 64 3#32 = 3#64 from rfl, getLsbD_ofNat]
  rcases i with _ | _ | i
  · rfl
  · rfl
  · have h : (3 : Nat).testBit (i + 1 + 1) = false := by simp [Nat.testBit_succ]
    simp [h]

lemma getBlk_getLsbD (bit i : Nat) :
    (getBlk w bit).getLsbD i = (decide (i < 2) && w.getLsbD (bit * 2 + i)) := by
  rw [getBlk, blkMask_eq, getLsbD_setWidth, getLsbD_and, three64_getLsbD, getLsbD_ushiftRight]
  by_cases hi : i < 2
  · have h8 : i < 8 := by omega
    simp [hi, h8]
  · simp [hi]

lemma getLsbD_of_lt_four (c : BitVec 8) (hc : c.toNat < 4) {i : Nat} (h : 2 ≤ i) :
    c.getLsbD i = false := by
  have hpow : 2 ^ 2 ≤ 2 ^ i := Nat.pow_le_pow_right (by omega) h
  exact Nat.testBit_lt_two_pow (by omega)

lemma getBlk_eq_iff (c : BitVec 8) (h : c.toNat < 4) :
    getBlk w bit = c ↔ w.getLsbD (bit * 2) = c.getLsbD 0 ∧ w.getLsbD (bit * 2 + 1) = c.getLsbD 1 := by
  constructor
  · rintro rfl
    exact ⟨by rw [getBlk_getLsbD]; simp, by rw [getBlk_getLsbD]; simp⟩
  · rintro ⟨h0, h1⟩
    apply eq_of_getLsbD_eq
    intro i hi
    rw [getBlk_getLsbD]
    rcases i with _ | _ | i
    · simpa using h0
    · simpa using h1
    · have hz : c.getLsbD (i + 1 + 1) = false := getLsbD_of_lt_four c h (by omega)
      simp [hz]

lemma getBlk_congr_iff (w w' : BitVec 64) (k : Nat) : getBlk w' k = getBlk w k ↔
      w'.getLsbD (k * 2) = w.getLsbD (k * 2) ∧ w'.getLsbD (k * 2 + 1) = w.getLsbD (k * 2 + 1) := by
  have hlt : (getBlk w k).toNat < 4 := by
    rw [getBlk, blkMask_eq]
    have hand : ((w >>> (k * 2)) &&& BitVec.signExtend 64 3#32).toNat ≤ 3 := by
      rw [toNat_and]
      exact Nat.and_le_right
    rw [toNat_setWidth]
    omega
  rw [getBlk_eq_iff w' k _ hlt, getBlk_getLsbD, getBlk_getLsbD]
  simp

/-! ## What `set_bit` leaves in the word

Below cell 16 both shifts are defined. The low half of the word is then exact; the high half is
where the sign extension of the two `int`s shows. -/

lemma setBit_of_lt (h : bit < 16) :
    setBit w bit stat = some ((w &&& (~~~(3#32 <<< (bit * 2))).signExtend 64) |||
        (stat.setWidth 32 <<< (bit * 2)).signExtend 64) := by
  have hn : bit * 2 < 32 := by omega
  simp [setBit, intShl, if_pos hn, blkMask_eq]

lemma setBit_of_ge (h : 16 ≤ bit) : setBit w bit stat = none := by
  have hn : ¬ bit * 2 < 32 := by omega
  simp [setBit, intShl, if_neg hn]

lemma mask_msb (h : bit < 16) : (3#32 <<< (bit * 2)).msb = decide (bit = 15) := by
  rw [msb_eq_getLsbD_last, getLsbD_shiftLeft, three_getLsbD]
  by_cases h15 : bit = 15
  · subst h15; rfl
  · have hge : ¬ 32 - 1 - bit * 2 < 2 := by omega
    simp [h15, hge]

lemma value_msb (hbit : bit < 16) (h : stat.toNat < 4) :
    (stat.setWidth 32 <<< (bit * 2)).msb = (decide (bit = 15) && stat.getLsbD 1) := by
  rw [msb_eq_getLsbD_last, getLsbD_shiftLeft, getLsbD_setWidth]
  by_cases h15 : bit = 15
  · subst h15; simp
  · have hz : stat.getLsbD (31 - bit * 2) = false := getLsbD_of_lt_four stat h (by omega)
    simp [h15, hz]

lemma setBit_low (h : stat.toNat < 4) (i : Nat) (hi : i < 32) :
    ((w &&& (~~~(3#32 <<< (bit * 2))).signExtend 64) |||
        (stat.setWidth 32 <<< (bit * 2)).signExtend 64).getLsbD i =
      if i = bit * 2 then stat.getLsbD 0
      else if i = bit * 2 + 1 then stat.getLsbD 1 else w.getLsbD i := by
  have hi64 : i < 64 := by omega
  rw [getLsbD_or, getLsbD_and, getLsbD_signExtend, getLsbD_signExtend,
    getLsbD_not, getLsbD_shiftLeft, getLsbD_shiftLeft, three_getLsbD,
    getLsbD_setWidth]
  simp only [hi64, hi, decide_true, Bool.true_and, if_true]
  by_cases h0 : i = bit * 2
  · subst h0; simp
  · by_cases h1 : i = bit * 2 + 1
    · subst h1; simp
    · rw [if_neg h0, if_neg h1]
      by_cases hlt : i < bit * 2
      · simp [hlt]
      · have hz : stat.getLsbD (i - bit * 2) = false := getLsbD_of_lt_four stat h (by omega)
        have hge : ¬ i - bit * 2 < 2 := by omega
        simp [hz, hge]

lemma setBit_high (h : bit < 16) (hst : stat.toNat < 4) (i : Nat) (hi : 32 ≤ i) (hi64 : i < 64) :
    ((w &&& (~~~(3#32 <<< (bit * 2))).signExtend 64) |||
        (stat.setWidth 32 <<< (bit * 2)).signExtend 64).getLsbD i =
      if bit = 15 then stat.getLsbD 1 else w.getLsbD i := by
  have hlo : ¬ i < 32 := by omega
  rw [getLsbD_or, getLsbD_and, getLsbD_signExtend, getLsbD_signExtend,
    if_neg hlo, if_neg hlo, msb_not, mask_msb bit h, value_msb bit stat h hst]
  by_cases h15 : bit = 15
  all_goals simp [h15, hi64]

lemma highFill_getLsbD (h : stat.toNat < 4) (i : Nat) (hi : i < 2) :
    (if stat.toNat < 2 then 0#8 else 3#8).getLsbD i = stat.getLsbD 1 := by
  have htop : stat.getLsbD 1 = decide (stat.toNat / 2 % 2 = 1) := by
    rw [← testBit_toNat, Nat.testBit_eq_decide_div_mod_eq, pow_one]
  rw [htop]
  by_cases h2 : stat.toNat < 2
  · rw [if_pos h2, decide_eq_false (by omega)]
    simp
  · rw [if_neg h2, decide_eq_true (by omega)]
    interval_cases i <;> rfl

/-- **Exactly when `set_bit` is a cell write.** Cells 0 to 14 always are; at cell 15 the high half
    of the word is overwritten by the state's top bit; from cell 16 on the shift is undefined. -/
theorem setBit_setsOnlyCell_iff (w : BitVec 64) (bit : Nat) (stat : BitVec 8) (hbit : bit < 32)
    (hstat : stat.toNat < 4) :
    SetsOnlyCell w bit stat ↔
      bit < 15 ∨ bit = 15 ∧
        ∀ other, 16 ≤ other → other < 32 → getBlk w other = if stat.toNat < 2 then 0#8 else 3#8 := by
  rcases Nat.lt_or_ge bit 16 with hlow | hhg
  · have h0 := highFill_getLsbD stat hstat 0 (by omega)
    have h1 := highFill_getLsbD stat hstat 1 (by omega)
    have hfl4 : (if stat.toNat < 2 then 0#8 else 3#8).toNat < 4 := by split <;> decide
    constructor
    · rintro ⟨w', hset, -, hoth⟩
      rw [setBit_of_lt w bit stat hlow, Option.some.injEq] at hset
      rcases Nat.lt_or_ge bit 15 with h15 | h15
      · exact Or.inl h15
      · obtain rfl : bit = 15 := by omega
        refine Or.inr ⟨rfl, fun other h16 h32 => ?_⟩
        have heq := hoth other h32 (by omega)
        rw [getBlk_congr_iff, ← hset, setBit_high w 15 stat hlow hstat _ (by omega) (by omega),
          setBit_high w 15 stat hlow hstat _ (by omega) (by omega), if_pos rfl] at heq
        rw [getBlk_eq_iff w other _ hfl4, h0, h1]
        exact ⟨heq.1.symm, heq.2.symm⟩
    · intro hcn
      refine ⟨_, setBit_of_lt w bit stat hlow, ?_, ?_⟩
      · rw [getBlk_eq_iff _ bit stat hstat, setBit_low w bit stat hstat _ (by omega),
          setBit_low w bit stat hstat _ (by omega)]
        simp
      · intro other h32 hne
        rw [getBlk_congr_iff]
        rcases Nat.lt_or_ge other 16 with h16 | h16
        · rw [setBit_low w bit stat hstat _ (by omega), setBit_low w bit stat hstat _ (by omega)]
          rw [if_neg (by omega), if_neg (by omega), if_neg (by omega), if_neg (by omega)]
          exact ⟨rfl, rfl⟩
        · rw [setBit_high w bit stat hlow hstat _ (by omega) (by omega),
            setBit_high w bit stat hlow hstat _ (by omega) (by omega)]
          rcases hcn with h15 | ⟨rfl, hfld⟩
          · rw [if_neg (by omega)]
            exact ⟨rfl, by rw [if_neg (by omega)]⟩
          · have hread := hfld other h16 h32
            rw [getBlk_eq_iff w other _ hfl4, h0, h1] at hread
            rw [if_pos rfl]
            exact ⟨hread.1.symm, by rw [if_pos rfl]; exact hread.2.symm⟩
  · constructor
    · rintro ⟨w', hset, -⟩
      rw [setBit_of_ge w bit stat hhg] at hset
      cases hset
    · intro hcn
      omega

theorem setBit_setsOnlyCell_three :
    SetsOnlyCell 0x2#64 3 2#8 ↔
      3 < 15 ∨ 3 = 15 ∧
        ∀ other, 16 ≤ other → other < 32 →
          getBlk 0x2#64 other = if (2#8).toNat < 2 then 0#8 else 3#8 :=
  setBit_setsOnlyCell_iff 0x2#64 3 2#8 (by decide) (by decide)

/-- Starting a segment in cell 15 of an empty word turns cells 16 to 31 from `EMPTY` into `IN`. -/
theorem setBit_start_fifteen_fills_high_half :
    ¬ ∀ (w : BitVec 64) (bit : Nat) (stat : BitVec 8), bit < 32 → stat.toNat < 4 →
      SetsOnlyCell w bit stat := by
  intro hall
  obtain ⟨w', hset, -, hoth⟩ := hall 0#64 15 2#8 (by decide) (by decide)
  have hw : w' = 0xffffffff80000000#64 := by
    have : setBit 0#64 15 2#8 = some 0xffffffff80000000#64 := by decide
    exact Option.some.inj (hset.symm.trans this)
  subst hw
  exact absurd (hoth 16 (by decide) (by decide)) (by decide)

end FioSsd.MapWord
