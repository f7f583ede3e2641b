import FioSsd.Verify.RoundTrip

/-! # The data behind the headers -/

namespace FioSsd

open List

variable {j len y : Nat} {k : Checksums} {o : ThreadOptions} {m : Mem}

/-- The pattern as `str_verify_pattern_cb` sets it up; a pattern of no bytes is one too. -/
structure PatternSet (o : ThreadOptions) : Prop where
  le : o.verifyPatternBytes ≤ maxPatternSize
  single : o.verifyPatternBytes = 1 → ∀ j < maxPatternSize, o.verifyPattern j = o.verifyPattern 0

def patternSize (o : ThreadOptions) : Nat :=
  if o.verifyPatternBytes ≤ 1 then maxPatternSize else o.verifyPatternBytes

def patternAt (o : ThreadOptions) (x : Nat) : UInt8 := o.verifyPattern (x % patternSize o)

variable (o) in
/-- The entries of the pattern that `patternRuns` reads. -/
def patternRunReads (len : Nat) (m : Mem) (buf : Nat) : Nat → Nat → Nat → List Nat
  | 0, _, _ => []
  | fuel + 1, i, mod =>
    if i < len then
      let size := min (patternSize o - mod) (len - i)
      (List.range size).map (mod + ·) ++
        if m.load (buf + i) size = (List.range size).map (fun j => o.verifyPattern (mod + j)) then
          patternRunReads len m buf fuel (i + size) 0
        else []
    else []

variable (o) in
/-- The entries of the pattern that `patternBytes` reads. -/
def patternByteReads (m : Mem) (buf : Nat) : Nat → Nat → Nat → List Nat
  | 0, _, _ => []
  | left + 1, i, mod => mod ::
    if m (buf + i) = o.verifyPattern mod then
      patternByteReads m buf left (i + 1) (if mod + 1 = o.verifyPatternBytes then 0 else mod + 1)
    else []

def patternReads (o : ThreadOptions) (ioU : IoU) (m : Mem) (p : Nat) : List Nat :=
  let len := (getHdrInc o ioU + 2 ^ 32 - hdrSize o.verify) % 2 ^ 32
  let buf := p + hdrSize o.verify
  let mod := hdrSize o.verify % patternSize o
  let stop := patternRuns o (patternSize o) len m buf len 0 mod
  patternRunReads o len m buf len 0 mod ++
    patternByteReads o m buf (len - stop.1) stop.1 stop.2

namespace PatternSet

lemma size_le (h : PatternSet o) : patternSize o ≤ maxPatternSize := by
  unfold patternSize
  split_ifs
  · exact le_rfl
  · exact h.le

lemma size_pos : 0 < patternSize o := by
  unfold patternSize maxPatternSize
  split_ifs <;> omega

lemma patternAt_eq (h : PatternSet o) (hpos : 0 < o.verifyPatternBytes) (x : Nat) :
    patternAt o x = o.verifyPattern (x % o.verifyPatternBytes) := by
  have hlt := lt_of_lt_of_le (Nat.mod_lt x (@size_pos o)) h.size_le
  unfold patternAt
  by_cases hone : o.verifyPatternBytes = 1
  · rw [h.single hone _ hlt, hone, Nat.mod_one]
  · rw [patternSize, if_neg (by omega)]

lemma patternBytes_differs (h : PatternSet o) {buf d : Nat} : ∀ {left i mod : Nat}, d < left →
    mod + d < patternSize o → m (buf + i + d) ≠ patternAt o (mod + d) →
      patternBytes o m buf left i mod = eilseq ∧
        ∀ x ∈ patternByteReads o m buf left i mod, x < patternSize o := by
  induction d with
  | zero =>
    intro left i mod hlf hmod hdf
    obtain ⟨left, rfl⟩ := Nat.exists_eq_succ_of_ne_zero (Nat.ne_of_gt hlf)
    have hne : ¬m (buf + i) = o.verifyPattern mod := fun heq =>
      hdf (heq.trans (congrArg o.verifyPattern (Nat.mod_eq_of_lt hmod).symm))
    simp only [patternBytes, patternByteReads, if_neg hne, mem_singleton, true_and]
    rintro x rfl
    exact hmod
  | succ d ih =>
    intro left i mod hlf hmod hdf
    obtain ⟨left, rfl⟩ := Nat.exists_eq_succ_of_ne_zero (Nat.ne_of_gt ((Nat.zero_le _).trans_lt hlf))
    have hhr : mod < patternSize o := by omega
    by_cases heq : m (buf + i) = o.verifyPattern mod
    · have hnx := @ih left (i + 1) (if mod + 1 = o.verifyPatternBytes then 0 else mod + 1) (by omega)
      have hpl : buf + (i + 1) + d = buf + i + (d + 1) := by omega
      rw [hpl] at hnx
      simp only [patternBytes, patternByteReads, if_pos heq, mem_cons, forall_eq_or_imp]
      rw [and_left_comm]
      refine ⟨hhr, ?_⟩
      split_ifs at hnx ⊢ with hwr
      · -- only a pattern of one byte wraps inside a run
        have hone : o.verifyPatternBytes = 1 := by
          unfold patternSize at hmod
          split_ifs at hmod <;> omega
        refine hnx (by omega) fun hsam => hdf (hsam.trans ?_)
        rw [h.patternAt_eq (by omega), h.patternAt_eq (by omega), hone, Nat.mod_one, Nat.mod_one]
      · have hmd' : mod + 1 + d = mod + (d + 1) := by omega
        exact hnx (by omega) (by rw [hmd']; exact hdf)
    · simp only [patternBytes, patternByteReads, if_neg heq, mem_singleton, true_and]
      rintro x rfl
      exact hhr

lemma patternRuns_spec {buf fuel : Nat} {stop : Nat × Nat} : ∀ {i mod : Nat},
    mod < patternSize o → i ≤ len → len - i ≤ fuel →
    patternRuns o (patternSize o) len m buf fuel i mod = stop →
      (∀ x ∈ patternRunReads o len m buf fuel i mod, x < patternSize o) ∧
      ((stop.1 = len ∧ ∀ j < len - i, m (buf + i + j) = patternAt o (mod + j)) ∨
        ((∃ d, stop.1 + d < len ∧ stop.2 + d < patternSize o ∧
            m (buf + stop.1 + d) ≠ patternAt o (stop.2 + d)) ∧
          ¬∀ j < len - i, m (buf + i + j) = patternAt o (mod + j))) := by
  induction fuel with
  | zero =>
    rintro i mod hmod hle hfl rfl
    refine ⟨fun x hx => absurd hx not_mem_nil, .inl ⟨?_, fun j hj => absurd hj (by omega)⟩⟩
    show i = len
    omega
  | succ fuel ih =>
    intro i mod hmod hle hfl hst
    unfold patternRuns at hst
    unfold patternRunReads
    by_cases hi : i < len
    · simp only [if_pos hi] at hst ⊢
      generalize hsz : min (patternSize o - mod) (len - i) = size at hst ⊢
      have hr : m.load (buf + i) size = (range size).map (fun j => o.verifyPattern (mod + j)) ↔
          ∀ j < size, m (buf + i + j) = patternAt o (mod + j) := by
        rw [Mem.load, map_inj_left]
        refine forall_congr' fun j => ?_
        rw [mem_range]
        refine forall_congr' fun hj => ?_
        rw [patternAt, Nat.mod_eq_of_lt (by omega)]
      have hrd : ∀ x ∈ (range size).map (mod + ·), x < patternSize o := by
        intro x hx
        obtain ⟨j, hj, rfl⟩ := mem_map.1 hx
        have := mem_range.1 hj
        omega
      simp only [hr] at hst ⊢
      split_ifs at hst ⊢ with heq
      · -- behind the run the pattern starts again, or there is nothing left
        have hph : ∀ j, j < len - (i + size) → patternAt o (0 + j) = patternAt o (mod + (size + j)) := by
          intro j hj
          have hnx : mod + (size + j) = patternSize o + j := by omega
          unfold patternAt
          rw [hnx, Nat.add_mod_left, zero_add]
        have hsh : (∀ j < len - (i + size), m (buf + (i + size) + j) = patternAt o (0 + j)) ↔
            ∀ j < len - i, m (buf + i + j) = patternAt o (mod + j) := by
          constructor
          · intro hall j hj
            by_cases hjs : j < size
            · exact heq j hjs
            · have hj' := hall (j - size) (by omega)
              rwa [hph _ (by omega), show buf + (i + size) + (j - size) = buf + i + j by omega,
                show size + (j - size) = j by omega] at hj'
          · intro hall j hj
            rw [hph j hj, show buf + (i + size) + j = buf + i + (size + j) by omega]
            exact hall _ (by omega)
        obtain ⟨hrs, hcs⟩ := ih (by omega) (by omega) (by omega) hst
        rw [hsh] at hcs
        exact ⟨fun x hx => (mem_append.1 hx).elim (hrd x) (hrs x), hcs⟩
      · subst hst
        rw [append_nil]
        refine ⟨hrd, .inr ⟨?_, fun hall => heq fun j hj => hall j (by omega)⟩⟩
        simp only [not_forall] at heq
        obtain ⟨d, hd, hdf⟩ := heq
        exact ⟨d, by show i + d < len; omega, by show mod + d < _; omega, hdf⟩
    · simp only [if_neg hi] at hst ⊢
      subst hst
      refine ⟨fun x hx => absurd hx not_mem_nil, .inl ⟨?_, fun j hj => absurd hj (by omega)⟩⟩
      show i = len
      omega

lemma verifyIoUPattern_spec (h : PatternSet o) {ioU : IoU} (m : Mem) (p : Nat)
    (hsz : hdrSize o.verify ≤ getHdrInc o ioU) :
    (verifyIoUPattern o ioU m p = 0 ↔ ∀ i < getHdrInc o ioU - hdrSize o.verify,
      m (p + hdrSize o.verify + i) = patternAt o (hdrSize o.verify + i)) ∧
    ∀ x ∈ patternReads o ioU m p, x < patternSize o := by
  have hlt := getHdrInc_lt o ioU
  have hlen : (getHdrInc o ioU + 2 ^ 32 - hdrSize o.verify) % 2 ^ 32 =
      getHdrInc o ioU - hdrSize o.verify := by omega
  have hrsl : verifyIoUPattern o ioU m p = patternLoops o (patternSize o)
      (getHdrInc o ioU - hdrSize o.verify) m (p + hdrSize o.verify) (hdrSize o.verify % patternSize o) := by
    rw [← hlen]
    rfl
  rw [hrsl]
  simp only [patternLoops, patternReads, hlen, mem_append]
  generalize hst : patternRuns o (patternSize o) _ m _ _ _ _ = stop
  obtain ⟨hrd, hcs⟩ := patternRuns_spec (Nat.mod_lt _ size_pos) (Nat.zero_le _) le_rfl hst
  have hph : ∀ j, patternAt o (hdrSize o.verify % patternSize o + j) =
      patternAt o (hdrSize o.verify + j) := fun j => congrArg o.verifyPattern (Nat.mod_add_mod _ _ _)
  simp only [Nat.sub_zero, Nat.add_zero, hph] at hcs
  obtain ⟨hend, hall⟩ | ⟨⟨d, hla, hmod, hdf⟩, hnot⟩ := hcs
  · rw [hend, Nat.sub_self]
    exact ⟨iff_of_true rfl hall, fun x hx => hrd x (hx.resolve_right not_mem_nil)⟩
  · obtain ⟨hfl, hby⟩ := h.patternBytes_differs (Nat.lt_sub_iff_add_lt'.2 hla) hmod hdf
    rw [hfl]
    exact ⟨iff_of_false (by decide) hnot, fun x hx => hx.elim (hrd x) (hby x)⟩

end PatternSet

/-- **The pattern check is exact**: it accepts a chunk exactly when each byte behind the header is
    that of the pattern, counted from the start of the chunk, and reads inside the pattern. -/
theorem verifyIoUPattern_exact (h : PatternSet o) (hpos : 0 < o.verifyPatternBytes) (ioU : IoU)
    (hsize : hdrSize o.verify < getHdrInc o ioU) (m : Mem) (p : Nat) :
    (verifyIoUPattern o ioU m p = 0 ↔ ∀ i < getHdrInc o ioU - hdrSize o.verify,
      m (p + hdrSize o.verify + i) = o.verifyPattern ((hdrSize o.verify + i) % o.verifyPatternBytes)) ∧
    ∀ x ∈ patternReads o ioU m p, x < maxPatternSize := by
  obtain ⟨hch, hrd⟩ := h.verifyIoUPattern_spec m p hsize.le
  simp only [h.patternAt_eq hpos] at hch
  exact ⟨hch, fun x hx => (hrd x hx).trans_le h.size_le⟩

/-- `verify_pattern=0x010203`: three bytes, doubled until 512 bytes do not hold more. -/
def threeBytes : ThreadOptions := { defaultOptions with
  verify := .verifyPattern, verifyInterval := 512, verifyPatternBytes := 384
  verifyPattern := fun x => if x % 3 = 0 then 3 else if x % 3 = 1 then 2 else 1 }

def writePattern (n : BitVec 64) : IoU := { ddir := .write, buflen := n }

lemma threeBytes_set : PatternSet threeBytes := ⟨by decide, fun h => absurd h (by decide)⟩

theorem verifyIoUPattern_exact_three :
    verifyIoUPattern threeBytes (writePattern 512) (fun _ => 1) 0 ≠ 0 := by
  have hch := (verifyIoUPattern_exact threeBytes_set (by decide) (writePattern 512) (by decide)
    (fun _ => 1) 0).1
  exact fun h0 => absurd (hch.1 h0 1 (by decide)) (by decide)

def seedAt (seed : BitVec 64) : Nat → BitVec 64
  | 0 => seed
  | n + 1 => seedAt ((seed * goldenRatioPrime) >>> 3) n

def randomByte (seed : BitVec 64) (y : Nat) : UInt8 := (leBytes 8 (seedAt seed (y / 8)).toNat).getD (y % 8) 0

lemma fillRandomBuf_apply (words : Nat) (m : Mem) (p : Nat) (seed : BitVec 64)
    (h : p ≤ y) (hy : y < p + 8 * words) :
    fillRandomBuf words m p seed y = randomByte seed (y - p) := by
  induction words generalizing m p seed with
  | zero => omega
  | succ words ih =>
    rw [fillRandomBuf_succ]
    beta_reduce
    unfold randomByte
    by_cases hfr : y < p + 8
    · rw [fillRandomBuf_frame _ _ _ _ (.inl hfr),
        Mem.store_of_mem _ h (by rw [length_leBytes]; exact hfr),
        Nat.div_eq_of_lt (by omega), Nat.mod_eq_of_lt (by omega)]
      rfl
    · rw [ih _ _ _ (by omega) (by omega), randomByte, show (y - p) / 8 = (y - (p + 8)) / 8 + 1 by omega,
        show (y - p) % 8 = (y - (p + 8)) % 8 by omega]
      rfl

lemma fillRepeated_apply (hpos : 0 < o.verifyPatternBytes) {fuel : Nat} (m : Mem) (i : Nat)
    (h : len - i ≤ fuel) : (y < i → fillRepeated o fuel m i len y = m y) ∧
      (i ≤ y → y < len →
        fillRepeated o fuel m i len y = o.verifyPattern ((y - i) % o.verifyPatternBytes)) := by
  induction fuel generalizing m i with
  | zero => exact ⟨fun _ => rfl, fun h1 h2 => absurd h2 (by omega)⟩
  | succ fuel ih =>
    unfold fillRepeated
    split_ifs with hi
    · simp only []
      generalize hsz : min o.verifyPatternBytes (len - i) = size
      have hlen : ((range size).map o.verifyPattern).length = size := by
        rw [length_map, length_range]
      obtain ⟨hpre, hbhn⟩ := ih (m.store i ((range size).map o.verifyPattern)) (i + size)
        (by omega)
      refine ⟨fun hy => ?_, fun hlow hy => ?_⟩
      · rw [hpre (by omega), Mem.store_of_not_mem _ (.inl hy)]
      · by_cases hrn : y < i + size
        · rw [hpre hrn, Mem.store_of_mem _ hlow (by omega), getD_eq_getElem?_getD,
            getElem?_eq_getElem (by omega), Option.getD_some, getElem_map, getElem_range,
            Nat.mod_eq_of_lt (by omega)]
        · rw [hbhn (by omega) hy, Nat.mod_eq_sub_mod (show o.verifyPatternBytes ≤ y - i by omega),
            show y - i - o.verifyPatternBytes = y - (i + size) by omega]
    · exact ⟨fun _ => rfl, fun h1 h2 => absurd h2 (by omega)⟩

def filledByte (o : ThreadOptions) (seed : BitVec 64) (y : Nat) : UInt8 :=
  if o.verifyPatternBytes = 0 then randomByte seed y else o.verifyPattern (y % o.verifyPatternBytes)

variable {w : IoU} {seed : BitVec 64}

lemma fillPattern_apply (hlen : w.buflen.toNat < 2 ^ 32) (hy : y < w.buflen.toNat)
    (h : o.verifyPatternBytes ≠ 0 → w.bufFilledLen.toNat < w.buflen.toNat) :
    (fillPattern o w seed).buf y = filledByte o seed y := by
  unfold fillPattern filledByte
  rw [Nat.mod_eq_of_lt hlen]
  simp only []
  split_ifs with h0 hfld hone
  · exact fillRandomBuf_apply _ _ _ _ (Nat.zero_le y) (by omega)
  · exact absurd (h h0) (Nat.not_lt.2 hfld)
  · show w.buf.store 0 (List.replicate w.buflen.toNat (o.verifyPattern 0)) y = _
    rw [Mem.store_of_mem _ (Nat.zero_le y) (by rw [length_replicate]; omega), hone, Nat.mod_one,
      getD_eq_getElem?_getD, getElem?_replicate, if_pos (by omega), Option.getD_some]
  · exact (fillRepeated_apply (Nat.pos_of_ne_zero h0) _ 0 (by omega)).2 (Nat.zero_le y) hy

lemma storeHdr_randSeed (w : IoU) (m : Mem) (p num : Nat) (h : len < 2 ^ 32) :
    (readHdr (storeHdr k o w m p num len) p).randSeed = w.randSeed := by
  have hfld := congrArg VerifyHeader.randSeed (readHdr_storeFields (o := o) w m p num len h)
  refine Eq.trans (loadU64_congr fun i hi => ?_) hfld
  exact Mem.store_of_not_mem _ (.inl (by omega))

lemma populateVerifyIoU_data {info : MetaInfo} {fuel : Nat} {w' : IoU} (hlaid : LaidOut o w)
    (hnl : o.verify ≠ .verifyNull) (h : populateVerifyIoU k o info seed w fuel = .ok w')
    (hj : j * getHdrInc o w < w.buflen.toNat) :
    (∀ x, hdrSize o.verify ≤ x → x < getHdrInc o w →
      swapHdr o w'.buf (j * getHdrInc o w) (hdrSize o.verify) (j * getHdrInc o w + x) =
        (fillPattern o w seed).buf (j * getHdrInc o w + x)) ∧
    (readHdr (swapHdr o w'.buf (j * getHdrInc o w) (hdrSize o.verify)) (j * getHdrInc o w)).randSeed =
      (fillPattern o w seed).randSeed := by
  obtain ⟨m1, m2, hfl, hrn, hps⟩ := populateVerifyIoU_chunk hnl hlaid.placed.inside hlaid.fits h hj
  obtain ⟨m3, hty, hrn⟩ := of_bind hrn
  cases hrn
  have hbc : ∀ x < getHdrInc o w, swapHdr o w'.buf (j * getHdrInc o w) (hdrSize o.verify)
      (j * getHdrInc o w + x) = m3 (j * getHdrInc o w + x) := by
    intro x hx
    rw [swapHdr_congr hlaid.placed.inside hlaid.fits (fun i hi => hps _ (by omega)) hx,
      swapHdr_swapHdr hlaid.placed]
  have hsum : hdrSize o.verify = vhdrSize o.verify + verifyHeaderSize := rfl
  have hft := hlaid.fits
  constructor
  · intro x hhdr hx
    rw [hbc x hx, fillByType_frame _ _ _ _ _ hty (.inr (by unfold hdrPriv; omega)),
      storeHdr_frame _ _ _ _ _ (.inr (by omega)), hfl _ (Nat.le_add_right _ _)]
  · rw [← storeHdr_randSeed (k := k) (o := o) (fillPattern o w seed) m1 (j * getHdrInc o w)
      (j % 2 ^ 32) (getHdrInc_lt o w)]
    refine congrArg VerifyHeader.randSeed (readHdr_congr fun i hi => ?_)
    rw [hbc i (by omega), fillByType_frame _ _ _ _ _ hty (.inl (by unfold hdrPriv; omega))]

structure PatternWrite (o : ThreadOptions) (w : IoU) : Prop where
  laid : LaidOut o w
  set : PatternSet o
  type : o.verify = .verifyPattern
  fills : o.verifyPatternBytes ≠ 0 → w.bufFilledLen.toNat < w.buflen.toNat

def PhaseAgrees (o : ThreadOptions) (seed : BitVec 64) (inc j : Nat) : Prop :=
  ∀ x, hdrSize o.verify ≤ x → x < inc → filledByte o seed (j * inc + x) = patternAt o x

section

variable {info : MetaInfo} {fuel : Nat} {w' r : IoU} {s : Nat} (h : PatternWrite o w)
  (hpop : populateVerifyIoU k o info seed w fuel = .ok w')

include h hpop

lemma PatternWrite.patternHolds_iff (hj : j * getHdrInc o w < w.buflen.toNat) :
    PatternHolds o w w'.buf j ↔ PhaseAgrees o seed (getHdrInc o w) j := by
  have hnl : o.verify ≠ .verifyNull := by rw [h.type]; decide
  have hin : j * getHdrInc o w + getHdrInc o w ≤ w.buflen.toNat := by
    obtain ⟨n, hn⟩ := h.laid.whole
    rw [hn, mul_comm] at hj ⊢
    rw [← Nat.mul_succ]
    exact Nat.mul_le_mul_left _ (Nat.lt_of_mul_lt_mul_left hj)
  have hdt := (populateVerifyIoU_data h.laid hnl hpop hj).1
  rw [PatternHolds, PhaseAgrees, (h.set.verifyIoUPattern_spec _ _ h.laid.fits).1]
  constructor
  · intro hall x hlow hx
    have hby := hall (x - hdrSize o.verify) (by omega)
    rw [add_assoc, Nat.add_sub_cancel' hlow, hdt x hlow hx,
      fillPattern_apply h.laid.buflen_lt (by omega) h.fills] at hby
    exact hby
  · intro hall i hi
    rw [add_assoc, hdt _ (Nat.le_add_right _ _) (by omega),
      fillPattern_apply h.laid.buflen_lt (by omega) h.fills]
    exact hall _ (Nat.le_add_right _ _) (by omega)

lemma PatternWrite.returns_iff (hread : ReadsBack o w w'.buf r s) (hexp : Expected o w r s) :
    Returns k o r 0 ↔ ∀ l < chunks o r, o.verifyFatal = true ∨ l + 1 = chunks o r →
      PhaseAgrees o seed (getHdrInc o w) (s + l) := by
  have hnl : o.verify ≠ .verifyNull := by rw [h.type]; decide
  rw [hread.returns_zero_iff h.laid (h.laid.allWritten hnl hpop) hnl hexp]
  simp only [PartPasses, TypePasses, h.type]
  refine forall_congr' fun l => forall_congr' fun hl => forall_congr' fun _ => ?_
  have hle := (hread.chunk_le h.laid.wholeChunks hl).1
  exact h.patternHolds_iff hpop (by have := h.laid.inc_pos; omega)

end

/-- **When a pattern write passes**: read back as it was written, `verify_io_u` returns 0 exactly
    when the pattern is in phase at the last chunk, or with `verify_fatal` at every one. -/
theorem patternWrite_returns_iff (k : Checksums) (info : MetaInfo) (seed : BitVec 64)
    (h : PatternWrite o w) : (∃ fuel w', populateVerifyIoU k o info seed w fuel = .ok w') ∧
      ∀ fuel w' r s, populateVerifyIoU k o info seed w fuel = .ok w' → ReadsBack o w w'.buf r s →
        Expected o w r s → (Returns k o r 0 ↔ ∀ l < chunks o r,
          o.verifyFatal = true ∨ l + 1 = chunks o r → PhaseAgrees o seed (getHdrInc o w) (s + l)) :=
  ⟨populateVerifyIoU_returns (by rw [h.type]; decide) h.laid.inc_pos,
    fun _ _ _ _ hpop hread hexp => h.returns_iff hpop hread hexp⟩

lemma writePattern_write {n : BitVec 64} (h : n.toNat < 2 ^ 32) (hdvd : 512 ∣ n.toNat)
    (hle : 512 ≤ n.toNat) : PatternWrite threeBytes (writePattern n) ∧
      getHdrInc threeBytes (writePattern n) = 512 := by
  have hinc : getHdrInc threeBytes (writePattern n) = 512 := by
    show (if (false : Bool) then _ else if (512 : BitVec 32) ≠ 0 ∧ 512 ≤ n.toNat then 512 else _) = 512
    rw [if_neg (by decide), if_pos ⟨by decide, hle⟩]
  refine ⟨⟨⟨h, ?_, ?_, .inl rfl⟩, threeBytes_set, rfl, fun _ => ?_⟩, hinc⟩
  · rw [hinc]
    exact hdvd
  · rw [hinc]
    decide
  · show 0 < n.toNat
    omega

def readPattern (n : BitVec 64) (m : Mem) : IoU := { writePattern n with ddir := .read, buf := m }

lemma readPattern_readsBack (n : BitVec 64) (m : Mem) :
    ReadsBack threeBytes (writePattern n) m (readPattern n m) 0 ∧
      Expected threeBytes (writePattern n) (readPattern n m) 0 ∧
      chunks threeBytes (readPattern n m) = n.toNat / getHdrInc threeBytes (writePattern n) := by
  refine ⟨⟨rfl, rfl, .inl ⟨rfl, rfl⟩, fun x _ => ?_⟩, ⟨?_, fun _ => rfl⟩, chunks_congr rfl⟩
  · rw [zero_mul, zero_add]
    rfl
  · rw [zero_mul]
    exact (BitVec.add_zero _).symm

theorem patternWrite_returns_one : ∃ fuel w',
    populateVerifyIoU sumChecksums threeBytes ⟨1, 1, 0, 0⟩ 7 (writePattern 512) fuel = .ok w' ∧
      Returns sumChecksums threeBytes (readPattern 512 w'.buf) 0 := by
  obtain ⟨hwr, hinc⟩ := @writePattern_write 512 (by decide) (by decide) (by decide)
  obtain ⟨⟨fuel, w', hpop⟩, hrd⟩ := patternWrite_returns_iff sumChecksums ⟨1, 1, 0, 0⟩ 7 hwr
  obtain ⟨hread, hexp, hchn⟩ := readPattern_readsBack 512 w'.buf
  rw [hinc] at hchn
  refine ⟨fuel, w', hpop, (hrd _ _ _ _ hpop hread hexp).2 fun l hl _ => ?_⟩
  obtain rfl := Nat.lt_one_iff.1 (lt_of_lt_of_eq hl hchn)
  intro x _ _
  rw [threeBytes_set.patternAt_eq (by decide), Nat.zero_mul, Nat.zero_add]
  rfl

/-- With two chunks the second is out of phase: 384 does not divide 512, nor does 3. -/
theorem patternWrite_second_fails : ∃ fuel w',
    populateVerifyIoU sumChecksums threeBytes ⟨1, 1, 0, 0⟩ 7 (writePattern 1024) fuel = .ok w' ∧
      ¬Returns sumChecksums threeBytes (readPattern 1024 w'.buf) 0 := by
  obtain ⟨hwr, hinc⟩ := @writePattern_write 1024 (by decide) (by decide) (by decide)
  obtain ⟨fuel, w', hpop⟩ := populateVerifyIoU_returns (by decide) hwr.laid.inc_pos
  obtain ⟨hread, hexp, hchn⟩ := readPattern_readsBack 1024 w'.buf
  refine ⟨fuel, w', hpop, ?_⟩
  rw [hwr.returns_iff hpop hread hexp, hchn, hinc]
  intro hall
  exact absurd (hall 1 (by decide) (.inr rfl) 56 (by decide) (by decide)) (by decide)

structure DumpBuf where
  buf : Mem
  (start len : Nat)
  offset : BitVec 64

/-- The request `dump_verify_buffers` regenerates the data with; `buf` is what `malloc` returns. -/
def dumpDummy (hdr : VerifyHeader) (r : IoU) (buf : Mem) : IoU :=
  { r with buf := buf, randSeed := hdr.randSeed, bufFilledLen := 0 }

/-- `dump_verify_buffers` for chunk `hdrNum` of the read `r`: the dumps of the received and of the expected
    data. -/
def dumpVerifyBuffers (k : Checksums) (o : ThreadOptions) (verifyDump : Bool) (info : MetaInfo)
    (hdr : VerifyHeader) (r : IoU) (hdrNum : Nat) (buf : Mem) (fuel : Nat) :
    Except Fault (Option (DumpBuf × DumpBuf)) :=
  if verifyDump then do
    let hdrOffset := hdrNum * hdr.len % 2 ^ 32
    let offset := r.offset + BitVec.ofNat 64 hdrOffset
    let dummy ← fillPatternHeaders k o info hdr.randSeed (dumpDummy hdr r buf) fuel
    return some (⟨r.buf, hdrOffset, hdr.len, offset⟩, ⟨dummy.buf, hdrOffset, hdr.len, offset⟩)
  else return none

def chunkByte (o : ThreadOptions) (m : Mem) (p x : Nat) : UInt8 := swapHdr o m p (hdrSize o.verify) (p + x)

structure RandomWrite (o : ThreadOptions) (w : IoU) : Prop where
  laid : LaidOut o w
  random : o.verifyPatternBytes = 0
  notNone : o.verify ≠ .verifyNone
  notNull : o.verify ≠ .verifyNull

section

variable {info : MetaInfo} {fuel : Nat} {w' : IoU} (h : RandomWrite o w)
  (hpop : populateVerifyIoU k o info seed w fuel = .ok w')

include h hpop

lemma RandomWrite.chunk (hj : j * getHdrInc o w + getHdrInc o w ≤ w.buflen.toNat) :
    (∀ x, hdrSize o.verify ≤ x → x < getHdrInc o w →
      chunkByte o w'.buf (j * getHdrInc o w) x = randomByte seed (j * getHdrInc o w + x)) ∧
    (readHdr (swapHdr o w'.buf (j * getHdrInc o w) (hdrSize o.verify)) (j * getHdrInc o w)).randSeed =
      seed := by
  have hpos := h.laid.inc_pos
  obtain ⟨hdt, hsd⟩ := populateVerifyIoU_data h.laid h.notNull hpop (j := j) (by omega)
  refine ⟨fun x hlow hx => ?_, hsd.trans ?_⟩
  · refine (hdt x hlow hx).trans ?_
    rw [fillPattern_apply h.laid.buflen_lt (by omega) (fun hne => absurd h.random hne)]
    exact if_pos h.random
  · unfold fillPattern
    simp [if_pos h.random]

lemma RandomWrite.dump {r : IoU} {s l : Nat} (hpr : PartOf o w r s) (hl : l < chunks o r)
    (info' : MetaInfo) (buf : Mem) : (s + l) * getHdrInc o w + getHdrInc o w ≤ w.buflen.toNat ∧
      ∃ fuel' received expected, dumpVerifyBuffers k o true info'
          (readHdr (swapHdr o w'.buf ((s + l) * getHdrInc o w) (hdrSize o.verify))
            ((s + l) * getHdrInc o w)) r l buf fuel' = .ok (some (received, expected)) ∧
        expected.start = l * getHdrInc o w ∧ expected.len = getHdrInc o w ∧
        ∀ x, hdrSize o.verify ≤ x → x < getHdrInc o w →
          chunkByte o expected.buf expected.start x = randomByte seed (l * getHdrInc o w + x) := by
  have hread : ReadsBack o w w'.buf { r with
      ddir := .read, trimmed := false, buf := fun x => w'.buf (s * getHdrInc o w + x) } s :=
    ⟨rfl, rfl, hpr, fun _ _ => rfl⟩
  obtain ⟨hwr, hin⟩ := hread.chunk_le h.laid.wholeChunks hl
  have hds := (hread.small h.laid.wholeChunks hl).2.2
  have hsd := (h.chunk hpop hwr).2
  have hlen := (h.laid.allWritten h.notNull hpop (s + l) (by have := h.laid.inc_pos; omega)).hdr.len
  generalize readHdr _ _ = hdr at hsd hlen ⊢
  have hinc : getHdrInc o (dumpDummy hdr r buf) = getHdrInc o w := hread.getHdrInc_eq
  have hdm : RandomWrite o (dumpDummy hdr r buf) := by
    refine ⟨⟨?_, hinc ▸ ?_, hinc ▸ h.laid.fits, hinc ▸ h.laid.placed⟩, h.random, h.notNone, h.notNull⟩
    · show r.buflen.toNat < 2 ^ 32
      have := h.laid.buflen_lt
      rcases hpr with ⟨-, heq⟩ | ⟨-, -, hle⟩
      · rwa [heq]
      · omega
    · exact ⟨chunks o r, (hread.chunks_mul h.laid.wholeChunks).symm.trans (mul_comm _ _)⟩
  obtain ⟨fuel', dummy, hdum⟩ := populateVerifyIoU_returns h.notNone hdm.laid.inc_pos
  have hexp := (hdm.chunk hdum (j := l) (by rw [hinc]; exact hin)).1
  rw [hinc] at hexp
  rw [populateVerifyIoU, if_neg h.notNull] at hdum
  have hrtr : dumpVerifyBuffers k o true info' hdr r l buf fuel' = .ok (some
      (⟨r.buf, l * getHdrInc o w, getHdrInc o w, r.offset + BitVec.ofNat 64 (l * getHdrInc o w)⟩,
      ⟨dummy.buf, l * getHdrInc o w, getHdrInc o w, r.offset + BitVec.ofNat 64 (l * getHdrInc o w)⟩)) := by
    rw [dumpVerifyBuffers, if_pos rfl, hlen, hsd, Nat.mod_eq_of_lt hds]
    simp only []
    rw [hdum]
    rfl
  exact ⟨hwr, fuel', _, _, hrtr, rfl, rfl, hexp⟩

end

/-- **When the expected dump is the data that was written**: exactly when the words of the seed,
    counted from the start of the read, are those counted from the start of the write. -/
theorem dumpVerifyBuffers_written_iff (k : Checksums) (info : MetaInfo) (seed : BitVec 64)
    (h : RandomWrite o w) : (∃ fuel w', populateVerifyIoU k o info seed w fuel = .ok w') ∧
      ∀ fuel w', populateVerifyIoU k o info seed w fuel = .ok w' → ∀ r s, PartOf o w r s →
        ∀ l < chunks o r, ∀ info' buf, ∃ fuel' received expected,
          dumpVerifyBuffers k o true info'
            (readHdr (swapHdr o w'.buf ((s + l) * getHdrInc o w) (hdrSize o.verify))
              ((s + l) * getHdrInc o w)) r l buf fuel' = .ok (some (received, expected)) ∧
          expected.start = l * getHdrInc o w ∧ expected.len = getHdrInc o w ∧
          ((∀ x, hdrSize o.verify ≤ x → x < getHdrInc o w → chunkByte o expected.buf expected.start x =
              chunkByte o w'.buf ((s + l) * getHdrInc o w) x) ↔
            ∀ x, hdrSize o.verify ≤ x → x < getHdrInc o w →
              randomByte seed (l * getHdrInc o w + x) =
                randomByte seed ((s + l) * getHdrInc o w + x)) := by
  refine ⟨populateVerifyIoU_returns h.notNone h.laid.inc_pos, ?_⟩
  intro fuel w' hpop r s hpr l hl info' buf
  obtain ⟨hwr, fuel', received, expected, hdm, hst, hlen, hexp⟩ := h.dump hpop hpr hl info' buf
  refine ⟨fuel', received, expected, hdm, hst, hlen, ?_⟩
  refine forall_congr' fun x => forall_congr' fun hlow => forall_congr' fun hx => ?_
  rw [hexp x hlow hx, (h.chunk hpop hwr).1 x hlow hx]

lemma writeTwo_random : RandomWrite (metaOptions 4096) writeTwo :=
  ⟨writeTwo_laidOut 4096, rfl, by decide, by decide⟩

theorem dumpVerifyBuffers_written_whole : ∃ fuel w' fuel' received expected,
    populateVerifyIoU sumChecksums (metaOptions 4096) ⟨1, 1, 0, 0⟩ 7 writeTwo fuel = .ok w' ∧
      dumpVerifyBuffers sumChecksums (metaOptions 4096) true ⟨1, 1, 0, 0⟩
        (readHdr (swapHdr (metaOptions 4096) w'.buf 4096 88) 4096) writeTwo 1 (fun _ => 0) fuel' =
        .ok (some (received, expected)) ∧
      ∀ x, 88 ≤ x → x < 4096 → chunkByte (metaOptions 4096) expected.buf expected.start x =
        chunkByte (metaOptions 4096) w'.buf 4096 x := by
  obtain ⟨⟨fuel, w', hpop⟩, hdm⟩ :=
    dumpVerifyBuffers_written_iff sumChecksums ⟨1, 1, 0, 0⟩ 7 writeTwo_random
  obtain ⟨fuel', received, expected, hdum, -, -, hiff⟩ := hdm fuel w' hpop writeTwo 0
    (.inl ⟨rfl, rfl⟩) 1 (by decide) ⟨1, 1, 0, 0⟩ (fun _ => 0)
  exact ⟨fuel, w', fuel', received, expected, hpop, hdum, hiff.2 fun x _ _ => by rw [zero_add]⟩

/-- A read of the second block gives other data than was written. -/
theorem dumpVerifyBuffers_second_block : ∃ fuel w' fuel' received expected,
    populateVerifyIoU sumChecksums (metaOptions 4096) ⟨1, 1, 0, 0⟩ 7 writeTwo fuel = .ok w' ∧
      ReadsBack (metaOptions 4096) writeTwo w'.buf (readSecond w'.buf) 1 ∧
      dumpVerifyBuffers sumChecksums (metaOptions 4096) true ⟨1, 1, 0, 0⟩
        (readHdr (swapHdr (metaOptions 4096) w'.buf 4096 88) 4096) (readSecond w'.buf) 0 (fun _ => 0)
        fuel' = .ok (some (received, expected)) ∧ expected.start = 0 ∧
      chunkByte (metaOptions 4096) expected.buf 0 88 ≠ chunkByte (metaOptions 4096) w'.buf 4096 88 := by
  obtain ⟨fuel, w', hpop⟩ : ∃ fuel w',
      populateVerifyIoU sumChecksums (metaOptions 4096) ⟨1, 1, 0, 0⟩ 7 writeTwo fuel = .ok w' :=
    populateVerifyIoU_returns (by decide) (by decide)
  obtain ⟨hread, -, hone⟩ := readSecond_readsBack 4096 w'.buf
  obtain ⟨hwr, fuel', received, expected, hdm, hst, -, hexp⟩ :=
    writeTwo_random.dump hpop hread.part (hone ▸ Nat.one_pos) ⟨1, 1, 0, 0⟩ (fun _ => 0)
  refine ⟨fuel, w', fuel', received, expected, hpop, hread, hdm, hst, fun heq => ?_⟩
  have hbyt := hexp 88 (by decide) (by decide)
  have hwrt := (writeTwo_random.chunk hpop hwr).1 88 (by decide) (by decide)
  rw [hst] at hbyt
  have hby := hbyt.symm.trans (heq.trans hwrt)
  exact absurd hby (by decide +kernel)

end FioSsd
