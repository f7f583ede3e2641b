import FioSsd.Generator.Fill
import FioSsd.Lib.Align
import Mathlib.Data.BitVec

/-! # The length of a request -/

namespace FioSsd

variable {e : BitVec 32 × Nat} {rest split : List (BitVec 32 × Nat)} {draws : List Nat}

open List Align Nat

def percOf : Option Int → Option Nat
  | none => none
  | some n => if n < 0 ∨ 100 < n then some 100 else if n = 0 then none else some n.toNat

structure Bssplit where
  split : List (BitVec 32 × Nat)
  (minBs maxBs : BitVec 32)

def openShare (percs : List (BitVec 32 × Option Nat)) : Nat :=
  (100 - (percs.filterMap (·.2)).sum) / (percs.filter (·.2.isNone)).length

/-- `bssplit_ddir`, for the sizes of the option with the numbers behind the slashes. -/
def bssplitDdir (tokens : List (BitVec 32 × Option Int)) : Option Bssplit :=
  let percs := tokens.map fun t => (t.1, percOf t.2)
  if 100 < (percs.filterMap (·.2)).sum then none
  else some
    { split := (percs.map fun e => (e.1, e.2.getD (openShare percs))).mergeSort fun a b => !(a.2 < b.2)
      minBs := tokens.foldl (fun m t => if t.1 < m then t.1 else m) (BitVec.allOnes 32)
      maxBs := tokens.foldl (fun m t => if m < t.1 then t.1 else m) 0 }

section Bssplit

variable {tokens : List (BitVec 32 × Option Int)} {b : Bssplit}

lemma foldl_min_le (m : BitVec 32) :
    (tokens.foldl (fun m t => if t.1 < m then t.1 else m) m).toNat ≤ m.toNat ∧
      ∀ t ∈ tokens, (tokens.foldl (fun m t => if t.1 < m then t.1 else m) m).toNat ≤ t.1.toNat := by
  induction tokens generalizing m with
  | nil => exact ⟨le_rfl, nofun⟩
  | cons t rest ih =>
    obtain ⟨hle, hrs⟩ := ih (if t.1 < m then t.1 else m)
    have hhd : (if t.1 < m then t.1 else m).toNat ≤ m.toNat ∧
        (if t.1 < m then t.1 else m).toNat ≤ t.1.toNat := by
      split_ifs with hlt
      · exact ⟨le_of_lt hlt, le_rfl⟩
      · exact ⟨le_rfl, Nat.le_of_not_lt hlt⟩
    refine ⟨hle.trans hhd.1, fun t' ht' => ?_⟩
    rcases mem_cons.1 ht' with rfl | ht'
    · exact hle.trans hhd.2
    · exact hrs t' ht'

lemma le_foldl_max (m : BitVec 32) :
    m.toNat ≤ (tokens.foldl (fun m t => if m < t.1 then t.1 else m) m).toNat ∧
      ∀ t ∈ tokens, t.1.toNat ≤ (tokens.foldl (fun m t => if m < t.1 then t.1 else m) m).toNat := by
  induction tokens generalizing m with
  | nil => exact ⟨le_rfl, nofun⟩
  | cons t rest ih =>
    obtain ⟨hle, hrs⟩ := ih (if m < t.1 then t.1 else m)
    have hhd : m.toNat ≤ (if m < t.1 then t.1 else m).toNat ∧
        t.1.toNat ≤ (if m < t.1 then t.1 else m).toNat := by
      split_ifs with hlt
      · exact ⟨le_of_lt hlt, le_rfl⟩
      · exact ⟨le_rfl, Nat.le_of_not_lt hlt⟩
    refine ⟨hhd.1.trans hle, fun t' ht' => ?_⟩
    rcases mem_cons.1 ht' with rfl | ht'
    · exact hhd.2.trans hle
    · exact hrs t' ht'

lemma bssplitDdir_sizes (h : bssplitDdir tokens = some b) (he : e ∈ b.split) :
    b.minBs.toNat ≤ e.1.toNat ∧ e.1.toNat ≤ b.maxBs.toNat := by
  unfold bssplitDdir at h
  simp only at h
  split_ifs at h
  cases h
  obtain ⟨e', he', rfl⟩ := mem_map.1 (mem_mergeSort.1 he)
  obtain ⟨t, ht, rfl⟩ := mem_map.1 he'
  exact ⟨(foldl_min_le _).2 t ht, (le_foldl_max _).2 t ht⟩

lemma sum_map_getD (percs : List (BitVec 32 × Option Nat)) (share : Nat) :
    ((percs.map fun e => (e.1, e.2.getD share)).map (·.2)).sum =
      (percs.filterMap (·.2)).sum + (percs.filter (·.2.isNone)).length * share := by
  induction percs with
  | nil => simp
  | cons e rest ih =>
    obtain ⟨s, perc⟩ := e
    cases perc with
    | none =>
      simp only [map_cons, sum_cons, Option.getD_none, ih, filterMap_cons,
        filter_cons, Option.isNone_none, if_true, length_cons]
      ring
    | some p =>
      simp only [map_cons, sum_cons, Option.getD_some, ih, filterMap_cons,
        filter_cons, Option.isNone_some, Bool.false_eq_true, if_false]
      ring

lemma bssplitDdir_perc (h : bssplitDdir tokens = some b) : (b.split.map (·.2)).sum ≤ 100 := by
  unfold bssplitDdir at h
  simp only at h
  split_ifs at h with hsum
  cases h
  rw [((mergeSort_perm _ _).map _).sum_eq, sum_map_getD, openShare]
  have hle := mul_div_le (100 - ((tokens.map fun t => (t.1, percOf t.2)).filterMap (·.2)).sum)
    ((tokens.map fun t => (t.1, percOf t.2)).filter (·.2.isNone)).length
  omega

end Bssplit

def frandMax : Nat := 2 ^ 32 - 1

def sharedSizes : List (BitVec 32 × Nat) → List (BitVec 32)
  | [] => []
  | [e] => [e.1]
  | e :: e' :: rest =>
    if 0 < e.2 then e.1 :: sharedSizes (e' :: rest) else sharedSizes (e' :: rest)

def ThreadOptions.topSizes (o : ThreadOptions) (ddir : Ddir) : List (BitVec 32) :=
  match o.bssplitOf ddir with
  | [] => [o.maxBsOf ddir]
  | e :: rest => e.1 :: sharedSizes (e :: rest)

def ThreadOptions.SizesParsed (o : ThreadOptions) (ddir : Ddir) : Prop :=
  o.bssplitOf ddir = [] ∨ ∃ tokens, bssplitDdir tokens =
    some ⟨o.bssplitOf ddir, o.minBsOf ddir, o.maxBsOf ddir⟩

section Draws

variable {o : ThreadOptions} {randMax : Nat} {file : FioFile} {ioU : IoU} {r perc : Nat}
  {buflen : BitVec 32} {s : BitVec 32}

lemma mem_splitBuflen (h : split ≠ [])
    (hs : splitBuflen randMax o file ioU r perc buflen split = s) : ∃ e ∈ split, e.1 = s := by
  subst hs
  induction split generalizing perc buflen with
  | nil => exact absurd rfl h
  | cons e rest ih =>
    unfold splitBuflen
    split_ifs
    · exact ⟨e, .head _, rfl⟩
    · cases rest with
      | nil => exact ⟨e, .head _, rfl⟩
      | cons e' rest =>
        obtain ⟨e'', hmem, hsz⟩ := @ih (perc + e.2) e.1 (by simp)
        exact ⟨e'', mem_cons_of_mem e hmem, hsz⟩

lemma splitBuflen_shared (hne : split ≠ []) (hgt : randMax / 100 * perc < r) :
    splitBuflen randMax o file ioU r perc buflen split ∈ sharedSizes split ∨
      ∃ e ∈ split, ioUFits o file ioU e.1 = false := by
  induction split generalizing perc buflen with
  | nil => exact absurd rfl hne
  | cons e rest ih =>
    unfold splitBuflen
    by_cases hdraw : r ≤ randMax / 100 * (perc + e.2)
    · by_cases hft : ioUFits o file ioU e.1
      · rw [if_pos ⟨hdraw, hft⟩]
        left
        cases rest with
        | nil => simp [sharedSizes]
        | cons e' rest =>
          have hpos : 0 < e.2 := by
            by_contra hcon
            have h0 : e.2 = 0 := by omega
            rw [h0, add_zero] at hdraw
            omega
          rw [sharedSizes, if_pos hpos]
          exact .head _
      · exact .inr ⟨e, .head _, by simpa using hft⟩
    · rw [if_neg (fun h => hdraw h.1)]
      cases rest with
      | nil => exact .inl (by simp [sharedSizes, splitBuflen])
      | cons e' rest =>
        rcases @ih (perc + e.2) e.1 (by simp) (by omega) with hin | ⟨e'', hmem, hnot⟩
        · left
          rw [sharedSizes]
          split_ifs
          · exact mem_cons_of_mem _ hin
          · exact hin
        · exact .inr ⟨e'', mem_cons_of_mem e hmem, hnot⟩

lemma drawBuflen_range (h : o.bssplitOf ioU.ddir = [])
    (hlt : (o.minBsOf ioU.ddir).toNat < (o.maxBsOf ioU.ddir).toNat) (hr : r ≤ frandMax) :
    (o.minBsOf ioU.ddir).toNat ≤ (drawBuflen exactScale frandMax o file ioU r).toNat ∧
      (drawBuflen exactScale frandMax o file ioU r).toNat ≤ (o.maxBsOf ioU.ddir).toNat := by
  have hmax := (o.maxBsOf ioU.ddir).isLt
  have hsc : exactScale (o.maxBsOf ioU.ddir).toNat r < (o.maxBsOf ioU.ddir).toNat := by
    refine Nat.div_lt_of_lt_mul ?_
    rw [mul_comm (2 ^ 32)]
    exact Nat.mul_lt_mul_of_pos_left (hr.trans_lt (by decide)) (by omega)
  have hdraw : (1 + BitVec.ofNat 32 (exactScale (o.maxBsOf ioU.ddir).toNat r)).toNat =
      1 + exactScale (o.maxBsOf ioU.ddir).toNat r := by
    have hone : (1 : BitVec 32).toNat = 1 := rfl
    rw [BitVec.toNat_add, BitVec.toNat_ofNat, hone, Nat.add_mod_mod]
    exact Nat.mod_eq_of_lt (by omega)
  rw [drawBuflen, h]
  simp only
  split_ifs with hmin
  · exact ⟨le_rfl, hlt.le⟩
  · rw [BitVec.lt_def] at hmin
    exact ⟨Nat.le_of_not_lt hmin, by rw [hdraw]; omega⟩

lemma drawBuflen_split (h : o.bssplitOf ioU.ddir = e :: rest) (scale : Scale) :
    drawBuflen scale randMax o file ioU r = splitBuflen randMax o file ioU r 0 0 (e :: rest) := by
  rw [drawBuflen, h]

lemma ioUFits_mono {b b' : BitVec 32} (hoff : ioU.offset.toNat < 2 ^ 63) (hle : b.toNat ≤ b'.toNat)
    (h : ioUFits o file ioU b') : ioUFits o file ioU b = true := by
  have hsum : ∀ c : BitVec 32, (ioU.offset + c.setWidth 64).toNat = ioU.offset.toNat + c.toNat := by
    intro c
    have hc := c.isLt
    rw [BitVec.toNat_add, BitVec.toNat_setWidth_of_le (by decide), mod_eq_of_lt (by omega)]
  unfold ioUFits at h ⊢
  rw [decide_eq_true_eq, BitVec.le_def, hsum] at h ⊢
  omega

variable (randMax file r) in
lemma drawBuflen_top (h : o.bssplitOf ioU.ddir = e :: rest) (scale : Scale) :
    drawBuflen scale randMax o file ioU r ∈ o.topSizes ioU.ddir ∨
      ∃ e' ∈ e :: rest, ioUFits o file ioU e'.1 = false := by
  rw [ThreadOptions.topSizes, drawBuflen_split h scale, h]
  rcases Nat.eq_zero_or_pos r with rfl | hpos
  · by_cases hft : ioUFits o file ioU e.1
    · left
      rw [splitBuflen, if_pos ⟨Nat.zero_le _, hft⟩]
      exact .head _
    · exact .inr ⟨e, .head _, by simpa using hft⟩
  · have hne : e :: rest ≠ [] := by simp
    have hgt : randMax / 100 * 0 < r := by omega
    rcases splitBuflen_shared hne hgt with hin | hnot
    · exact .inl (.tail _ hin)
    · exact .inr hnot

end Draws

section Rounding

variable {o : ThreadOptions} {ddir : Ddir} {s : BitVec 32}

def ThreadOptions.RoundsUp (o : ThreadOptions) (ddir : Ddir) : Prop :=
  o.bsUnaligned = false ∧ isPowerOf2 (o.minBsOf ddir) = true

def ThreadOptions.FitsBuffer (o : ThreadOptions) (ddir : Ddir) (len : BitVec 32) : Prop :=
  len = 0 ∨ (o.minBsOf ddir).toNat ∣ len.toNat ∧ (o.minBsOf ddir).toNat ≤ len.toNat ∧
    len.toNat ≤ (o.maxBsOf ddir).toNat

lemma alignBuflen_down (h : ¬o.RoundsUp ddir) : alignBuflen o ddir s = s := by
  unfold alignBuflen
  refine if_neg fun hcon => h ?_
  simpa [ThreadOptions.RoundsUp] using hcon

lemma alignBuflen_up (h : o.RoundsUp ddir) (hpos : 0 < (o.minBsOf ddir).toNat) :
    roundUp s.toNat (o.minBsOf ddir).toNat = 2 ^ 32 ∧ (alignBuflen o ddir s).toNat = 0 ∨
      roundUp s.toNat (o.minBsOf ddir).toNat < 2 ^ 32 ∧
        (alignBuflen o ddir s).toNat = roundUp s.toNat (o.minBsOf ddir).toNat := by
  obtain ⟨hunl, hpow⟩ := h
  have hal : alignBuflen o ddir s =
      (s + o.minBsOf ddir - 1) &&& ~~~(o.minBsOf ddir - 1) := if_pos (by simp [hunl, hpow])
  obtain ⟨hne, hand⟩ := Bool.and_eq_true_iff.1 hpow
  have hrn := toNat_roundUp (of_decide_eq_true hne) (of_decide_eq_true hand) s
  have hdvd := dvd_two_pow (of_decide_eq_true hne) (of_decide_eq_true hand)
  have hle := roundUp_le hpos s.isLt.le hdvd
  rw [hal, hrn]
  rcases eq_or_lt_of_le hle with heq | hlt
  · exact .inl ⟨heq, by rw [heq, mod_self]⟩
  · exact .inr ⟨hlt, mod_eq_of_lt hlt⟩

lemma toNat_div_mul (b m : BitVec 32) : (b / m * m).toNat = b.toNat / m.toNat * m.toNat := by
  rw [BitVec.toNat_mul, BitVec.toNat_udiv]
  exact mod_eq_of_lt ((div_mul_le_self _ _).trans_lt b.isLt)

lemma fitsBuffer_of_le {b : BitVec 32} (hpos : 0 < (o.minBsOf ddir).toNat)
    (h : b.toNat = 0 ∨ (o.minBsOf ddir).toNat ≤ b.toNat) (hmax : b.toNat ≤ (o.maxBsOf ddir).toNat) :
    o.FitsBuffer ddir (b / o.minBsOf ddir * o.minBsOf ddir) := by
  have hlen := toNat_div_mul b (o.minBsOf ddir)
  rcases h with h0 | h
  · left
    rw [h0, Nat.zero_div, zero_mul] at hlen
    exact BitVec.eq_of_toNat_eq hlen
  · right
    rw [hlen]
    refine ⟨Nat.dvd_mul_left _ _, ?_, (Nat.div_mul_le_self _ _).trans hmax⟩
    exact Nat.le_mul_of_pos_left _ (Nat.div_pos h hpos)

lemma alignBuflen_min (h : 0 < (o.minBsOf ddir).toNat) (hmin : (o.minBsOf ddir).toNat ≤ s.toNat) :
    (alignBuflen o ddir s).toNat = 0 ∨ (o.minBsOf ddir).toNat ≤ (alignBuflen o ddir s).toNat := by
  by_cases hup : o.RoundsUp ddir
  · rcases alignBuflen_up (s := s) hup h with ⟨-, h0⟩ | ⟨-, hrn⟩
    · exact .inl h0
    · rw [hrn]
      exact .inr (hmin.trans (le_roundUp h))
  · rw [alignBuflen_down hup]
    exact .inr hmin

end Rounding

section Fits

variable {o : ThreadOptions} {ddir : Ddir} {file : FioFile} {ioU : IoU} {r : Nat} {len : BitVec 32}

def ThreadOptions.TopsFit (o : ThreadOptions) (ddir : Ddir) : Prop :=
  o.RoundsUp ddir → ∀ s ∈ o.topSizes ddir,
    Align.roundUp s.toNat (o.minBsOf ddir).toNat ≤ (o.maxBsOf ddir).toNat ∨
      Align.roundUp s.toNat (o.minBsOf ddir).toNat = 2 ^ 32

structure ThreadOptions.HasSizes (o : ThreadOptions) (ddir : Ddir) : Prop where
  pos : 0 < (o.minBsOf ddir).toNat
  lt : (o.minBsOf ddir).toNat < (o.maxBsOf ddir).toNat
  parsed : o.SizesParsed ddir

lemma ThreadOptions.HasSizes.ne (h : o.HasSizes ddir) : o.minBsOf ddir ≠ o.maxBsOf ddir := fun heq =>
  absurd h.lt (by rw [heq]; exact lt_irrefl _)

lemma ThreadOptions.HasSizes.mem_split (h : o.HasSizes ddir) (he : e ∈ o.bssplitOf ddir) :
    (o.minBsOf ddir).toNat ≤ e.1.toNat ∧ e.1.toNat ≤ (o.maxBsOf ddir).toNat := by
  rcases h.parsed with hnil | ⟨tokens, htkn⟩
  · rw [hnil] at he
    cases he
  · exact bssplitDdir_sizes htkn he

variable (file) in
lemma drawBuflen_mem (h : o.HasSizes ioU.ddir) (hr : r ≤ frandMax) :
    (o.minBsOf ioU.ddir).toNat ≤ (drawBuflen exactScale frandMax o file ioU r).toNat ∧
      (drawBuflen exactScale frandMax o file ioU r).toNat ≤ (o.maxBsOf ioU.ddir).toNat := by
  cases hsp : o.bssplitOf ioU.ddir with
  | nil => exact drawBuflen_range hsp h.lt hr
  | cons e rest =>
    have hne : e :: rest ≠ [] := by simp
    obtain ⟨e', hmem, hsz⟩ := mem_splitBuflen hne (drawBuflen_split hsp exactScale).symm
    rw [← hsz]
    exact h.mem_split (hsp ▸ hmem)

lemma alignBuflen_le (h : o.HasSizes ioU.ddir) (htp : o.TopsFit ioU.ddir) (hr : r ≤ frandMax)
    (hoff : ioU.offset.toNat < 2 ^ 63) (hft : ioUFits o file ioU
      (alignBuflen o ioU.ddir (drawBuflen exactScale frandMax o file ioU r)) = true) :
    (alignBuflen o ioU.ddir (drawBuflen exactScale frandMax o file ioU r)).toNat ≤
      (o.maxBsOf ioU.ddir).toNat := by
  obtain ⟨-, hmax⟩ := drawBuflen_mem file h hr
  by_cases hup : o.RoundsUp ioU.ddir
  · rcases alignBuflen_up (s := drawBuflen exactScale frandMax o file ioU r) hup h.pos with
      ⟨-, h0⟩ | ⟨hlt, hrn⟩
    · rw [h0]
      exact zero_le _
    cases hsp : o.bssplitOf ioU.ddir with
    | nil =>
      rw [hrn]
      have hmn := roundUp_mono (m := (o.minBsOf ioU.ddir).toNat) hmax
      have htop : o.maxBsOf ioU.ddir ∈ o.topSizes ioU.ddir := by
        simp [ThreadOptions.topSizes, hsp]
      rcases htp hup _ htop with hle | hwr
      · exact hmn.trans hle
      · -- the multiple before the size of the word is not above `max_bs`
        have hnx := roundUp_lt (n := (o.maxBsOf ioU.ddir).toNat) h.pos
        rw [← hwr] at hlt
        have hap := add_le_of_dvd (dvd_roundUp _ _) (dvd_roundUp _ _) hlt
        omega
    | cons e rest =>
      rcases drawBuflen_top frandMax file r hsp exactScale with
        hin | ⟨e', hmem, hnot⟩
      · rcases htp hup _ hin with hle | hwr
        · rw [hrn]
          exact hle
        · omega
      · have hsz := (h.mem_split (hsp ▸ hmem)).2
        by_contra hcon
        have hle : e'.1.toNat ≤ (alignBuflen o ioU.ddir
            (drawBuflen exactScale frandMax o file ioU r)).toNat := by omega
        cases (ioUFits_mono hoff hle hft).symm.trans hnot
  · rw [alignBuflen_down hup]
    exact hmax

lemma buflenLoop_spec {scale : Scale} {randMax : Nat}
    (h : buflenLoop scale randMax o file ioU draws = .ok len) :
    ∃ r ∈ draws, len = alignBuflen o ioU.ddir (drawBuflen scale randMax o file ioU r) ∧
      ioUFits o file ioU len = true := by
  induction draws with
  | nil => exact absurd h (by simp [buflenLoop])
  | cons r rest ih =>
    unfold buflenLoop at h
    simp only at h
    split_ifs at h with hft
    · cases h
      exact ⟨r, .head _, rfl, hft⟩
    · obtain ⟨r', hmem, hlen⟩ := ih h
      exact ⟨r', mem_cons_of_mem r hmem, hlen⟩

lemma getNextBuflen_fits (h : o.HasSizes ioU.ddir) (htp : o.TopsFit ioU.ddir)
    (hoff : ioU.offset.toNat < 2 ^ 63) (hdraws : ∀ r ∈ draws, r ≤ frandMax)
    (hrun : getNextBuflen exactScale frandMax o file ioU draws = .ok len) :
    o.FitsBuffer ioU.ddir len := by
  simp only [getNextBuflen, if_neg h.ne] at hrun
  split_ifs at hrun
  · cases hrun
    exact .inl rfl
  · obtain ⟨b, hlp, hrun⟩ := of_bind hrun
    cases hrun
    obtain ⟨r, hmem, rfl, hft⟩ := buflenLoop_spec hlp
    have hr := hdraws r hmem
    exact fitsBuffer_of_le h.pos (alignBuflen_min h.pos (drawBuflen_mem file h hr).1)
      (alignBuflen_le h htp hr hoff hft)

def roomyFile (o : ThreadOptions) : FioFile := { ioSize := 2 ^ 40 - o.startOffset }

def firstUnit (ddir : Ddir) : IoU := { ddir := ddir, offset := 0 }

lemma roomyFile_fits (o : ThreadOptions) (ddir : Ddir) (b : BitVec 32) :
    ioUFits o (roomyFile o) (firstUnit ddir) b = true := by
  have hb := b.isLt
  have hrm : (2 ^ 40 : BitVec 64).toNat = 2 ^ 40 := by decide
  have hle : 0#64 + b.setWidth 64 ≤ 2 ^ 40 - o.startOffset + o.startOffset := by
    rw [BitVec.sub_add_cancel, BitVec.zero_add, BitVec.le_def, BitVec.toNat_setWidth_of_le (by decide)]
    omega
  exact decide_eq_true hle

lemma splitBuflen_draws {perc : Nat}
    (h : ∀ b, ioUFits o file ioU b = true) (hsum : perc + (split.map (·.2)).sum ≤ 100)
    (hs : s ∈ sharedSizes split) : ∃ r ≤ frandMax, frandMax / 100 * perc < r ∧
      ∀ buflen, splitBuflen frandMax o file ioU r perc buflen split = s := by
  have hun : frandMax / 100 = 42949672 := by decide
  have hmax : frandMax = 4294967295 := by decide
  rw [hun]
  induction split generalizing perc with
  | nil => exact absurd hs (by simp [sharedSizes])
  | cons e rest ih =>
    simp only [map_cons, sum_cons] at hsum
    cases rest with
    | nil =>
      obtain rfl := mem_singleton.1 hs
      refine ⟨frandMax, le_rfl, by omega, fun buflen => ?_⟩
      simp [splitBuflen]
    | cons e' rest =>
      have hnx : s ∈ sharedSizes (e' :: rest) → ∃ r ≤ frandMax, 42949672 * perc < r ∧
          ∀ buflen, splitBuflen frandMax o file ioU r perc buflen (e :: e' :: rest) = s := by
        intro hin
        have hrs : perc + e.2 + ((e' :: rest).map (·.2)).sum ≤ 100 := by omega
        obtain ⟨r, hr, hgt, hdraw⟩ := ih hrs hin
        refine ⟨r, hr, by omega, fun buflen => ?_⟩
        rw [splitBuflen, hun, if_neg (fun hcon => absurd hcon.1 (by omega))]
        exact hdraw e.1
      rw [sharedSizes] at hs
      split_ifs at hs with hpos
      · rcases mem_cons.1 hs with rfl | hin
        · refine ⟨42949672 * (perc + e.2), by omega, by omega, fun buflen => ?_⟩
          rw [splitBuflen, hun, if_pos ⟨le_rfl, h e.1⟩]
        · exact hnx hin
      · exact hnx hs

lemma exactScale_frandMax {n : Nat} (h : 0 < n) (hlt : n < 2 ^ 32) : exactScale n frandMax = n - 1 := by
  have hmax : frandMax = 2 ^ 32 - 1 := rfl
  rw [exactScale, hmax]
  refine Nat.div_eq_of_lt_le ?_ ?_
  · rw [Nat.mul_sub, Nat.sub_mul]
    omega
  · rw [Nat.mul_sub, Nat.sub_add_cancel h]
    omega

lemma topSizes_drawn (h : o.HasSizes ddir) (hs : s ∈ o.topSizes ddir) :
    ∃ r ≤ frandMax, drawBuflen exactScale frandMax o (roomyFile o) (firstUnit ddir) r = s := by
  unfold ThreadOptions.topSizes at hs
  cases hsp : o.bssplitOf ddir with
  | nil =>
    rw [hsp] at hs
    obtain rfl := mem_singleton.1 hs
    refine ⟨frandMax, le_rfl, ?_⟩
    have hmin := h.lt
    have hmax := (o.maxBsOf ddir).isLt
    have hdraw : 1 + BitVec.ofNat 32 (exactScale (o.maxBsOf ddir).toNat frandMax) = o.maxBsOf ddir := by
      have hone : (1 : BitVec 32).toNat = 1 := rfl
      refine BitVec.eq_of_toNat_eq ?_
      rw [exactScale_frandMax (by omega) hmax, BitVec.toNat_add, BitVec.toNat_ofNat, hone,
        add_mod_mod, mod_eq_of_lt (by omega)]
      omega
    simp only [drawBuflen, firstUnit, hsp, hdraw]
    exact if_neg (by rw [BitVec.lt_def]; omega)
  | cons e rest =>
    rw [hsp] at hs
    have hft := roomyFile_fits o ddir
    have hdrawn : ∀ r, drawBuflen exactScale frandMax o (roomyFile o) (firstUnit ddir) r =
        splitBuflen frandMax o (roomyFile o) (firstUnit ddir) r 0 0 (e :: rest) :=
      fun r => drawBuflen_split hsp exactScale
    rcases mem_cons.1 hs with rfl | hshr
    · refine ⟨0, zero_le _, ?_⟩
      rw [hdrawn, splitBuflen, if_pos ⟨zero_le _, hft e.1⟩]
    · have hsum : 0 + ((e :: rest).map (·.2)).sum ≤ 100 := by
        rcases h.parsed with hnil | ⟨tokens, htkn⟩
        · cases hnil.symm.trans hsp
        · rw [zero_add, ← hsp]
          exact bssplitDdir_perc htkn
      obtain ⟨r, hr, -, hdraw⟩ := splitBuflen_draws hft hsum hshr
      exact ⟨r, hr, by rw [hdrawn, hdraw]⟩

lemma getNextBuflen_roomy (hne : o.minBsOf ioU.ddir ≠ o.maxBsOf ioU.ddir)
    (h : ∀ b, ioUFits o file ioU b = true) : getNextBuflen exactScale frandMax o file ioU [r] =
      .ok (alignBuflen o ioU.ddir (drawBuflen exactScale frandMax o file ioU r) /
        o.minBsOf ioU.ddir * o.minBsOf ioU.ddir) := by
  simp only [getNextBuflen, buflenLoop, if_neg hne, h, Bool.not_true, Bool.false_eq_true, if_false,
    if_true]
  rfl

/-- **A length fits the buffer of its unit** exactly if no size of the job is rounded up above
    `max_bs`. -/
theorem getNextBuflen_fits_iff (h : o.HasSizes ddir) :
    (∀ (file : FioFile) (ioU : IoU) (draws : List Nat) (len : BitVec 32), ioU.ddir = ddir →
      ioU.offset.toNat < 2 ^ 63 → (∀ r ∈ draws, r ≤ frandMax) →
      getNextBuflen exactScale frandMax o file ioU draws = .ok len → o.FitsBuffer ddir len) ↔
      o.TopsFit ddir := by
  constructor
  · intro hall hup s hs
    by_contra hcon
    obtain ⟨hover, hwr⟩ := not_or.1 hcon
    obtain ⟨r, hr, hdraw⟩ := topSizes_drawn h hs
    have hrn : (alignBuflen o ddir s).toNat = Align.roundUp s.toNat (o.minBsOf ddir).toNat := by
      rcases alignBuflen_up (s := s) hup h.pos with ⟨hwr', -⟩ | ⟨-, hrn⟩
      · exact absurd hwr' hwr
      · exact hrn
    have hrun := getNextBuflen_roomy (r := r) (h.ne : o.minBsOf (firstUnit ddir).ddir ≠ _)
      (roomyFile_fits o ddir)
    rw [hdraw] at hrun
    have hoff : (firstUnit ddir).offset.toNat < 2 ^ 63 := by simp [firstUnit]
    have hlen := hall _ _ _ _ rfl hoff (by simpa using hr) hrun
    have hnat := toNat_div_mul (alignBuflen o ddir s) (o.minBsOf ddir)
    rw [hrn, Nat.div_mul_cancel (Align.dvd_roundUp _ _)] at hnat
    -- the next multiple is above `max_bs`, so it is neither 0 nor short enough
    rcases hlen with h0 | ⟨-, -, hle⟩
    · have h0' : (alignBuflen o ddir s / o.minBsOf ddir * o.minBsOf ddir).toNat = 0 :=
        congrArg BitVec.toNat h0
      rw [← hnat, h0'] at hover
      exact hover (Nat.zero_le _)
    · exact hover (hnat ▸ hle)
  · rintro htp file ioU draws len rfl hoff hdraws hrun
    exact getNextBuflen_fits h htp hoff hdraws hrun

def rangeOptions (max : BitVec 32) : ThreadOptions := { defaultOptions with maxBs := max }

def longestWrite (max : BitVec 32) : Except Fault (BitVec 32) :=
  getNextBuflen exactScale frandMax (rangeOptions max) (roomyFile (rangeOptions max)) (firstUnit .write)
    [frandMax]

theorem getNextBuflen_fits_multiple :
    longestWrite 8192 = .ok 8192 ∧ (rangeOptions 8192).FitsBuffer .write 8192 := by
  have hr : longestWrite 8192 = .ok 8192 := by decide +kernel
  refine ⟨hr, (getNextBuflen_fits_iff ⟨by decide, by decide, .inl rfl⟩).2 ?_ _ _ _ _ rfl (by decide)
    (by decide) hr⟩
  intro _ s hs
  obtain rfl := mem_singleton.1 hs
  exact .inl (by decide)

theorem getNextBuflen_fits_not :
    (rangeOptions 10240).HasSizes .write ∧ longestWrite 10240 = .ok 12288 ∧
      ¬(rangeOptions 10240).FitsBuffer .write 12288 := by
  refine ⟨⟨by decide, by decide, .inl rfl⟩, by decide +kernel, ?_⟩
  rintro (h0 | ⟨-, -, hle⟩)
  · exact absurd h0 (by decide)
  · exact absurd hle (by decide)

end Fits

end FioSsd
