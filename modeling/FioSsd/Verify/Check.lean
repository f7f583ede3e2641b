import FioSsd.Verify.Crc32c
import FioSsd.Verify.Header

/-! # `verify_io_u`

Walk the chunks of a read buffer, check each header and then the chunk's checksum. -/

namespace FioSsd

open List

variable {fuel n : Nat} {c : Nat → Nat} {i r ret : Nat}
variable (k : Checksums) (o : ThreadOptions) (ioU : IoU) (m : Mem)

def verifyHeader (p : Nat) : Bool :=
  let hdr := readHdr m p
  hdr.magic = fioHdrMagic && decide (hdr.len ≤ ioU.buflen.toNat) &&
    decide ((k.crc32c (m.load p 32)).1 = hdr.crc32)

/-- `io_u_verify_off`: the data area that belongs to the header of chunk `hdrNum`. -/
def ioUVerifyOff (hdr : VerifyHeader) (t : VerifyType) (hdrNum : Nat) : Nat :=
  hdrNum * hdr.len % 2 ^ 32 + hdrSize t

def dataLen (hdr : VerifyHeader) (t : VerifyType) : Nat := (hdr.len + 2 ^ 32 - hdrSize t) % 2 ^ 32

/-- A checksum handler: compare the stored bytes with the checksum of the data area. -/
def verifyDigest {n : Nat} (digest : List UInt8 → Digest n) (t : VerifyType) (m : Mem)
    (p hdrNum : Nat) : Nat :=
  let hdr := readHdr m p
  if m.load (hdrPriv p) n = (digest (m.load (ioUVerifyOff hdr t hdrNum) (dataLen hdr t))).1 then 0
  else eilseq

def verifyIoUMd5 := verifyDigest k.md5 .verifyMd5

def verifyIoUCrc64 := verifyDigest k.crc64 .verifyCrc64

def verifyIoUCrc32c := verifyDigest k.crc32c .verifyCrc32c

def verifyIoUCrc32 := verifyDigest k.crc32 .verifyCrc32

def verifyIoUCrc16 := verifyDigest k.crc16 .verifyCrc16

def verifyIoUCrc7 := verifyDigest k.crc7 .verifyCrc7

def verifyIoUSha256 := verifyDigest k.sha256 .verifySha256

def verifyIoUSha512 := verifyDigest k.sha512 .verifySha512

def verifyIoUSha1 := verifyDigest k.sha1 .verifySha1

/-- The first loop of `verify_io_u_pattern`: compare whole runs of the pattern, and stop with the
    position of the run that differs, or at the end. -/
def patternRuns (patternSize len : Nat) (m : Mem) (buf : Nat) : Nat → Nat → Nat → Nat × Nat
  | 0, i, mod => (i, mod)
  | fuel + 1, i, mod =>
    if i < len then
      let size := min (patternSize - mod) (len - i)
      if m.load (buf + i) size = (List.range size).map (fun j => o.verifyPattern (mod + j)) then
        patternRuns patternSize len m buf fuel (i + size) 0
      else (i, mod)
    else (i, mod)

/-- The second loop of `verify_io_u_pattern`: find the first byte that differs. -/
def patternBytes (m : Mem) (buf : Nat) : Nat → Nat → Nat → Nat
  | 0, _, _ => 0
  | left + 1, i, mod =>
    if m (buf + i) = o.verifyPattern mod then
      patternBytes m buf left (i + 1) (if mod + 1 = o.verifyPatternBytes then 0 else mod + 1)
    else eilseq

/-- Both loops of `verify_io_u_pattern`, over the `len` bytes from `buf` on. -/
def patternLoops (patternSize len : Nat) (m : Mem) (buf mod : Nat) : Nat :=
  let stop := patternRuns o patternSize len m buf len 0 mod
  patternBytes o m buf (len - stop.1) stop.1 stop.2

def verifyIoUPattern (p : Nat) : Nat :=
  let headerSize := hdrSize o.verify
  let patternSize := if o.verifyPatternBytes ≤ 1 then maxPatternSize else o.verifyPatternBytes
  let len := (getHdrInc o ioU + 2 ^ 32 - headerSize) % 2 ^ 32
  patternLoops o patternSize len m (p + headerSize) (headerSize % patternSize)

def verifyIoUMeta (p hdrNum : Nat) : Nat :=
  let expected := ioU.offset + BitVec.ofNat 64 (hdrNum * o.verifyInterval.toNat % 2 ^ 32)
  let ret := if loadU64 m (hdrPriv p) = expected then 0 else eilseq
  if o.verifyPatternBytes ≠ 0 then ret ||| verifyIoUPattern o ioU m p else ret

/-- The `switch` on the type the header carries. -/
def verifyByType (p hdrNum : Nat) : Nat :=
  match VerifyType.ofNat? (readHdr m p).verifyType with
  | some .verifyMd5 => verifyIoUMd5 k m p hdrNum
  | some .verifyCrc64 => verifyIoUCrc64 k m p hdrNum
  | some .verifyCrc32c | some .verifyCrc32cIntel => verifyIoUCrc32c k m p hdrNum
  | some .verifyCrc32 => verifyIoUCrc32 k m p hdrNum
  | some .verifyCrc16 => verifyIoUCrc16 k m p hdrNum
  | some .verifyCrc7 => verifyIoUCrc7 k m p hdrNum
  | some .verifySha256 => verifyIoUSha256 k m p hdrNum
  | some .verifySha512 => verifyIoUSha512 k m p hdrNum
  | some .verifyMeta => verifyIoUMeta o ioU m p hdrNum
  | some .verifySha1 => verifyIoUSha1 k m p hdrNum
  | some .verifyPattern => verifyIoUPattern o ioU m p
  | _ => einval

/-- One round of the loop behind the swap: `none` is the immediate return of `EILSEQ`. -/
def checkChunk (p hdrNum : Nat) : Option Nat :=
  let hdr := readHdr m p
  if !verifyHeader k ioU m p then none
  else if hdr.offset ≠ ioU.offset + BitVec.ofNat 64 (hdrNum * getHdrInc o ioU % 2 ^ 32) then none
  else if o.verifyInner && !o.uniqueOps.isMatch hdr.uniqueVersion ioU.uniqueVersion then none
  else some (verifyByType k o ioU m p hdrNum)

/-- What `verify_io_u` returns, the buffer it leaves and whether it sets `td->terminate`. -/
structure VerifyResult where
  ret : Nat
  buf : Mem
  terminate : Bool

def verifyDone (ret : Nat) : VerifyResult := ⟨ret, m, ret ≠ 0 && o.verifyFatal⟩

/-- The chunk loop, from the chunk at `p` on. -/
def verifyLoop : Nat → Nat → Nat → Mem → Nat → Except Fault VerifyResult
  | 0, _, _, _, _ => .error .outOfFuel
  | fuel + 1, p, hdrNum, m, ret =>
    if p < ioU.buflen.toNat then
      if ret ≠ 0 && o.verifyFatal then .ok (verifyDone o m ret)
      else
        let m := swapHdr o m p (hdrSize o.verify)
        match checkChunk k o ioU m p hdrNum with
        | none => .ok ⟨eilseq, m, false⟩
        | some ret =>
          verifyLoop fuel (p + getHdrInc o ioU) ((hdrNum + 1) % 2 ^ 32) m ret
    else .ok (verifyDone o m ret)

/-- `verify_trimmed_io_u` behind its option: the buffer is zero, piece by piece. -/
def verifyTrimmedLoop (m : Mem) : Nat → Nat → Nat → Nat
  | 0, p, len => if m.load p len = List.replicate len 0 then 0 else eilseq
  | pieces + 1, p, len =>
    if m.load p 1024 = List.replicate 1024 0 then verifyTrimmedLoop m pieces (p + 1024) (len - 1024)
    else eilseq

def verifyTrimmedIoU : Nat :=
  if o.trimZero then
    let len := ioU.buflen.toNat % 2 ^ 32
    verifyTrimmedLoop ioU.buf ((len - 1) / 1024) 0 len
  else 0

def verifyIoU (fuel : Nat) : Except Fault VerifyResult :=
  if o.verify = .verifyNull ∨ ioU.ddir ≠ .read then .ok ⟨0, ioU.buf, false⟩
  else if ioU.trimmed then .ok (verifyDone o ioU.buf (verifyTrimmedIoU o ioU))
  else verifyLoop k o ioU fuel 0 0 ioU.buf 0

def chunkBuf : Nat → Mem
  | 0 => ioU.buf
  | i + 1 => swapHdr o (chunkBuf i) (i * getHdrInc o ioU) (hdrSize o.verify)

def chunkCheck (i : Nat) : Option Nat :=
  checkChunk k o ioU (chunkBuf o ioU (i + 1)) (i * getHdrInc o ioU) (i % 2 ^ 32)

def InBuf (i : Nat) : Prop := i * getHdrInc o ioU < ioU.buflen.toNat
deriving Decidable

/-- From chunk `i` on the loop ends at `n` with `r`: every chunk before passes its header checks, and
    then a header is bad or the buffer ends. -/
def EndsAt (i ret n r : Nat) : Prop :=
  i ≤ n ∧ (∀ l, i ≤ l → l < n → InBuf o ioU l ∧ chunkCheck k o ioU l ≠ none) ∧
    (InBuf o ioU n ∧ chunkCheck k o ioU n = none ∧ r = eilseq ∨
      ¬InBuf o ioU n ∧ (n = i ∧ r = ret ∨ i < n ∧ chunkCheck k o ioU (n - 1) = some r))

variable {k o ioU}

lemma InBuf.of_le {j : Nat} (h : InBuf o ioU j) (hij : i ≤ j) : InBuf o ioU i := by
  unfold InBuf at h ⊢
  have := Nat.mul_le_mul_right (getHdrInc o ioU) hij
  omega

lemma verifyLoop_succ (fuel i ret : Nat) :
    verifyLoop k o ioU (fuel + 1) (i * getHdrInc o ioU) (i % 2 ^ 32) (chunkBuf o ioU i) ret =
      if InBuf o ioU i then
        if ret ≠ 0 && o.verifyFatal then .ok (verifyDone o (chunkBuf o ioU i) ret)
        else match chunkCheck k o ioU i with
          | none => .ok ⟨eilseq, chunkBuf o ioU (i + 1), false⟩
          | some ret => verifyLoop k o ioU fuel ((i + 1) * getHdrInc o ioU) ((i + 1) % 2 ^ 32)
              (chunkBuf o ioU (i + 1)) ret else .ok (verifyDone o (chunkBuf o ioU i) ret) := by
  have hnum : (i % 2 ^ 32 + 1) % 2 ^ 32 = (i + 1) % 2 ^ 32 := by omega
  have hpos : i * getHdrInc o ioU + getHdrInc o ioU = (i + 1) * getHdrInc o ioU := by ring
  rw [verifyLoop]
  simp only [hnum, hpos]
  rfl

lemma verifyLoop_round (h : (ret ≠ 0 && o.verifyFatal) = false) (hin : InBuf o ioU i) :
    verifyLoop k o ioU (fuel + 1) (i * getHdrInc o ioU) (i % 2 ^ 32) (chunkBuf o ioU i) ret =
      match chunkCheck k o ioU i with
      | none => .ok ⟨eilseq, chunkBuf o ioU (i + 1), false⟩
      | some ret => verifyLoop k o ioU fuel ((i + 1) * getHdrInc o ioU) ((i + 1) % 2 ^ 32)
          (chunkBuf o ioU (i + 1)) ret := by
  rw [verifyLoop_succ, if_pos hin, h]
  rfl

lemma verifyLoop_end (h : ¬InBuf o ioU i) :
    verifyLoop k o ioU (fuel + 1) (i * getHdrInc o ioU) (i % 2 ^ 32) (chunkBuf o ioU i) ret =
      .ok (verifyDone o (chunkBuf o ioU i) ret) := by
  rw [verifyLoop_succ, if_neg h]

lemma verifyLoop_returns_iff (h : o.verifyFatal = false) :
    ∀ i ret, (∃ fuel res, verifyLoop k o ioU fuel (i * getHdrInc o ioU) (i % 2 ^ 32)
        (chunkBuf o ioU i) ret = .ok res ∧ res.ret = r) ↔ ∃ n, EndsAt k o ioU i ret n r := by
  intro i ret
  constructor
  · rintro ⟨fuel, res, hrun, hret⟩
    induction fuel generalizing i ret with
    | zero => exact absurd hrun (by simp [verifyLoop])
    | succ fuel ih =>
      by_cases hin : InBuf o ioU i
      · rw [verifyLoop_round (by simp [h]) hin] at hrun
        cases hc : chunkCheck k o ioU i with
        | none =>
          rw [hc, Except.ok.injEq] at hrun
          subst hrun
          exact ⟨i, le_refl i, by omega, .inl ⟨hin, hc, hret.symm⟩⟩
        | some ret' =>
          rw [hc] at hrun
          obtain ⟨n, hle, hpre, hend⟩ := ih (i + 1) ret' hrun
          refine ⟨n, by omega, fun l hl hln => ?_, ?_⟩
          · rcases Nat.eq_or_lt_of_le hl with heq | hlt
            · subst heq
              exact ⟨hin, by simp [hc]⟩
            · exact hpre l hlt hln
          · rcases hend with hbad | ⟨hout, ⟨heq, hr⟩ | ⟨hlt, hla⟩⟩
            · exact .inl hbad
            · subst heq
              exact .inr ⟨hout, .inr ⟨by omega, by rw [hr]; exact hc⟩⟩
            · exact .inr ⟨hout, .inr ⟨by omega, hla⟩⟩
      · rw [verifyLoop_end hin, Except.ok.injEq] at hrun
        subst hrun
        exact ⟨i, le_refl i, by omega, .inr ⟨hin, .inl ⟨rfl, hret.symm⟩⟩⟩
  · rintro ⟨n, hle, hpre, hend⟩
    -- the number of rounds left, by which the fuel is bounded
    obtain ⟨d, rfl⟩ : ∃ d, n = i + d := ⟨n - i, by omega⟩
    induction d generalizing i ret with
    | zero =>
      refine ⟨1, ?_⟩
      rw [add_zero] at hend
      rcases hend with ⟨hin, hc, hr⟩ | ⟨hout, ⟨_, hr⟩ | ⟨hlt, _⟩⟩
      · rw [verifyLoop_round (by simp [h]) hin, hc]
        exact ⟨_, rfl, hr.symm⟩
      · rw [verifyLoop_end hout]
        exact ⟨_, rfl, hr.symm⟩
      · omega
    | succ d ih =>
      obtain ⟨hin, hc⟩ := hpre i (le_refl i) (by omega)
      obtain ⟨ret', hrt'⟩ := Option.ne_none_iff_exists'.1 hc
      have hsh : i + (d + 1) = i + 1 + d := by omega
      obtain ⟨fuel, res, hrun, hres⟩ := ih (i + 1) ret' (by omega)
        (fun l hl hln => hpre l (by omega) (by omega)) (by
          rw [← hsh]
          rcases hend with hbad | ⟨hout, ⟨heq, _⟩ | ⟨_, hla⟩⟩
          · exact .inl hbad
          · omega
          · refine .inr ⟨hout, ?_⟩
            rcases Nat.eq_zero_or_pos d with hd | hd
            · subst hd
              have hla' : chunkCheck k o ioU i = some r := hla
              rw [hrt'] at hla'
              exact .inl ⟨rfl, (Option.some.inj hla').symm⟩
            · exact .inr ⟨by omega, hla⟩)
      refine ⟨fuel + 1, res, ?_, hres⟩
      rw [verifyLoop_round (by simp [h]) hin, hrt']
      exact hrun

/-- The value of `ret` behind chunks whose checks gave `cs`, from `ret` on: with `verify_fatal` the
    first failure stays, without it the last chunk decides. -/
def lastResult (fatal : Bool) : Nat → List Nat → Nat
  | ret, [] => ret
  | ret, c :: cs => if ret ≠ 0 && fatal then ret else lastResult fatal c cs

lemma lastResult_of_stopped (cs : List Nat) (h : ret ≠ 0) : lastResult true ret cs = ret := by
  cases cs with
  | nil => rfl
  | cons c cs => simp [lastResult, h]

lemma lastResult_fatal_eq_zero_iff (cs : List Nat) :
    lastResult true 0 cs = 0 ↔ ∀ c ∈ cs, c = 0 := by
  induction cs with
  | nil => simp [lastResult]
  | cons c cs ih =>
    rw [lastResult, if_neg (by simp), forall_mem_cons]
    by_cases hc : c = 0
    · subst hc
      simp [ih]
    · rw [lastResult_of_stopped cs hc]
      simp [hc]

lemma lastResult_append (ret : Nat) (cs : List Nat) (c : Nat) :
    lastResult false ret (cs ++ [c]) = c := by
  induction cs generalizing ret with
  | nil => simp [lastResult]
  | cons _ cs ih => simpa [lastResult] using ih _

lemma lastResult_eq_zero_iff (fatal : Bool) (n : Nat) (c : Nat → Nat) :
    lastResult fatal 0 ((range n).map c) = 0 ↔ ∀ l < n, fatal = true ∨ l + 1 = n → c l = 0 := by
  cases fatal with
  | true => simp [lastResult_fatal_eq_zero_iff]
  | false =>
    cases n with
    | zero => simp [lastResult]
    | succ n =>
      rw [range_succ, map_append, map_cons, map_nil, lastResult_append]
      constructor
      · intro h l _ hl
        obtain rfl : l = n := by simpa using hl
        exact h
      · exact fun h => h n (Nat.lt_succ_self n) (.inr rfl)

lemma exists_fuel_succ {run : Nat → Except Fault VerifyResult}
    (h0 : run 0 = .error .outOfFuel) : (∃ fuel res, run fuel = .ok res ∧ res.ret = r) ↔
      ∃ fuel res, run (fuel + 1) = .ok res ∧ res.ret = r := by
  constructor
  · rintro ⟨fuel, res, hrun, hr⟩
    cases fuel with
    | zero => cases h0.symm.trans hrun
    | succ fuel => exact ⟨fuel, res, hrun, hr⟩
  · rintro ⟨fuel, h⟩
    exact ⟨fuel + 1, h⟩

lemma verifyLoop_good (hin : ∀ l, InBuf o ioU l ↔ l < n)
    (hc : ∀ l < n, chunkCheck k o ioU l = some (c l)) (d i ret : Nat) (hd : i + d = n) :
    (∃ fuel res, verifyLoop k o ioU fuel (i * getHdrInc o ioU) (i % 2 ^ 32) (chunkBuf o ioU i) ret =
      .ok res ∧ res.ret = r) ↔ lastResult o.verifyFatal ret ((range' i d).map c) = r := by
  have hdn : ∀ m v, (∃ (_ : Nat) (res : VerifyResult),
      (.ok (verifyDone o m v) : Except Fault VerifyResult) = .ok res ∧ res.ret = r) ↔ v = r := by
    intro m v
    simp [verifyDone]
  induction d generalizing i ret with
  | zero =>
    rw [exists_fuel_succ rfl]
    simp only [verifyLoop_end (fun h => absurd ((hin i).1 h) (by omega))]
    exact hdn _ ret
  | succ d ih =>
    have hi := (hin i).2 (by omega)
    rw [exists_fuel_succ rfl, range'_succ, map_cons, lastResult]
    by_cases hst : (ret ≠ 0 && o.verifyFatal) = true
    · simp only [verifyLoop_succ, if_pos hi, if_pos hst]
      exact hdn _ ret
    · rw [if_neg hst]
      simp only [verifyLoop_round (Bool.eq_false_iff.2 hst) hi, hc i (by omega)]
      exact ih (i + 1) (c i) (by omega)

def ChecksChunks (o : ThreadOptions) (ioU : IoU) : Prop :=
  o.verify ≠ .verifyNull ∧ ioU.ddir = .read ∧ ioU.trimmed = false

lemma verifyIoU_eq_loop (h : ChecksChunks o ioU) (fuel : Nat) : verifyIoU k o ioU fuel =
      verifyLoop k o ioU fuel (0 * getHdrInc o ioU) (0 % 2 ^ 32) (chunkBuf o ioU 0) 0 := by
  obtain ⟨hvrf, hread, htr⟩ := h
  rw [verifyIoU, if_neg (by simp [hvrf, hread]), if_neg (by simp [htr])]
  simp [chunkBuf]

def Returns (k : Checksums) (o : ThreadOptions) (ioU : IoU) (r : Nat) : Prop :=
  ∃ fuel res, verifyIoU k o ioU fuel = .ok res ∧ res.ret = r

lemma returns_iff_of_good (h : ChecksChunks o ioU)
    (hin : ∀ l, InBuf o ioU l ↔ l < n) (hc : ∀ l < n, chunkCheck k o ioU l = some (c l)) :
    Returns k o ioU r ↔ lastResult o.verifyFatal 0 ((range n).map c) = r := by
  simp only [Returns, verifyIoU_eq_loop h]
  rw [verifyLoop_good hin hc n 0 0 (zero_add n), range_eq_range']

lemma returns_iff_of_bad (h : ChecksChunks o ioU) (hin : InBuf o ioU 0)
    (hc : chunkCheck k o ioU 0 = none) : Returns k o ioU r ↔ eilseq = r := by
  simp only [Returns, verifyIoU_eq_loop h]
  rw [exists_fuel_succ rfl]
  simp only [verifyLoop_round (show (0 ≠ 0 && o.verifyFatal) = false from rfl) hin, hc]
  simp

def Examines (k : Checksums) (o : ThreadOptions) (ioU : IoU) (i : Nat) : Prop :=
  ChecksChunks o ioU ∧ InBuf o ioU i ∧ ∀ l < i, chunkCheck k o ioU l ≠ none

def ReturnsNonzero (k : Checksums) (o : ThreadOptions) (ioU : IoU) : Prop :=
  ∃ fuel res, verifyIoU k o ioU fuel = .ok res ∧ res.ret ≠ 0

lemma returnsNonzero_iff (hft : o.verifyFatal = false) (h : ChecksChunks o ioU) :
    ReturnsNonzero k o ioU ↔ ∃ n r, EndsAt k o ioU 0 0 n r ∧ r ≠ 0 := by
  constructor
  · rintro ⟨fuel, res, hres, hne⟩
    rw [verifyIoU_eq_loop h] at hres
    obtain ⟨n, hn⟩ := (verifyLoop_returns_iff hft 0 0).1 ⟨fuel, res, hres, rfl⟩
    exact ⟨n, res.ret, hn, hne⟩
  · rintro ⟨n, r, hn, hne⟩
    obtain ⟨fuel, res, hres, hr⟩ := (verifyLoop_returns_iff hft 0 0).2 ⟨n, hn⟩
    exact ⟨fuel, res, by rw [verifyIoU_eq_loop h, hres], by rw [hr]; exact hne⟩

/-- **When a failing chunk is reported** (with `verify_fatal` off): some chunk fails its header
    checks, or the last chunk fails, or no chunk fails at all. -/
theorem verifyIoU_reports_iff (hfatal : o.verifyFatal = false) :
    ((∃ i, Examines k o ioU i ∧ chunkCheck k o ioU i ≠ some 0) → ReturnsNonzero k o ioU) ↔
      (∃ i, Examines k o ioU i ∧ chunkCheck k o ioU i = none) ∨
      (∃ i, Examines k o ioU i ∧ ¬InBuf o ioU (i + 1) ∧ chunkCheck k o ioU i ≠ some 0) ∨
      ∀ i, Examines k o ioU i → chunkCheck k o ioU i = some 0 := by
  constructor
  · intro hrpr
    by_cases hall : ∀ i, Examines k o ioU i → chunkCheck k o ioU i = some 0
    · exact .inr (.inr hall)
    · push Not at hall
      obtain ⟨i, hexm, hfl⟩ := hall
      obtain ⟨n, r, ⟨-, hpre, hend⟩, hr⟩ :=
        (returnsNonzero_iff hfatal hexm.1).1 (hrpr ⟨i, hexm, hfl⟩)
      rcases hend with ⟨hin, hbad, -⟩ | ⟨hout, ⟨_, h0⟩ | ⟨hpos, hla⟩⟩
      · exact .inl ⟨n, ⟨hexm.1, hin, fun l hl => (hpre l (Nat.zero_le l) hl).2⟩, hbad⟩
      · exact absurd h0 hr
      · have hla' := (hpre (n - 1) (Nat.zero_le _) (by omega)).1
        refine .inr (.inl ⟨n - 1, ⟨hexm.1, hla', fun l hl => ?_⟩, ?_, ?_⟩)
        · exact (hpre l (Nat.zero_le l) (by omega)).2
        · rwa [Nat.sub_add_cancel (by omega)]
        · rw [hla]
          simpa using hr
  · -- an examined chunk that is bad, or the last one, ends the loop with its own result
    have hbad : ∀ i, Examines k o ioU i → chunkCheck k o ioU i = none → ReturnsNonzero k o ioU := by
      rintro i ⟨hchc, hin, hpre⟩ hc
      refine (returnsNonzero_iff hfatal hchc).2 ⟨i, eilseq, ⟨Nat.zero_le i, ?_, ?_⟩, by decide⟩
      · exact fun l _ hl => ⟨hin.of_le hl.le, hpre l hl⟩
      · exact .inl ⟨hin, hc, rfl⟩
    rintro (⟨i, hexm, hc⟩ | ⟨i, hexm, hout, hc⟩ | hall) ⟨j, hj, hfl⟩
    · exact hbad i hexm hc
    · cases hch : chunkCheck k o ioU i with
      | none => exact hbad i hexm hch
      | some r =>
        obtain ⟨hchc, hin, hpre⟩ := hexm
        refine (returnsNonzero_iff hfatal hchc).2 ⟨i + 1, r, ⟨Nat.zero_le _, ?_, ?_⟩, ?_⟩
        · intro l _ hl
          rcases Nat.lt_succ_iff_lt_or_eq.1 hl with hlt | heq
          · exact ⟨hin.of_le hlt.le, hpre l hlt⟩
          · rw [heq]
            exact ⟨hin, by simp [hch]⟩
        · exact .inr ⟨hout, .inr ⟨Nat.succ_pos i, hch⟩⟩
        · rintro rfl
          exact hc hch
    · exact absurd (hall j hj) hfl

def sumDigest (n : Nat) (bs : List UInt8) : Digest n :=
  ⟨leBytes n (bs.map UInt8.toNat).sum, length_leBytes n _⟩

/-- `fio_crc32c` as it is computed, with sums of the bytes for the other functions. -/
def sumChecksums : Checksums where
  md5 := sumDigest 16
  crc64 := sumDigest 8
  crc32 := sumDigest 4
  crc32c := fun bs => ⟨leBytes 4 (crc32cSw bs).toNat, length_leBytes 4 _⟩
  crc16 := sumDigest 2
  crc7 := sumDigest 1
  sha256 := sumDigest 64
  sha512 := sumDigest 128
  sha1 := sumDigest 20

def md5Options : ThreadOptions := { defaultOptions with
  verify := .verifyMd5, verifyInterval := 128 }

def crc32cOptions : ThreadOptions := { md5Options with verify := .verifyCrc32c }

/-- Store at `p` the header of a chunk of 128 bytes at `offset`, with the sum of 68 zero bytes. -/
def crc32cChunk (p : Nat) (offset : UInt8) (crc : List UInt8) : Mem :=
  ((((m.store p [0xca, 0xac, 4]).store (p + 8) [offset]).store (p + 16) [128]).store (p + 32)
    crc).store (p + 56) [0x17, 0xb9, 0xf2, 0x27]

/-- A read of two chunks at offset 0, all of whose data bytes are zero but the one at `bad`. -/
def damagedRead (bad : Nat) : IoU := {
  buflen := 256
  buf := (crc32cChunk (crc32cChunk (fun _ => 0) 0 0 [0xaa, 0x81, 0x8d, 0x66]) 128 128
    [0xb6, 0x79, 0x64, 0x5c]).store bad [1] }

lemma damagedRead_checksChunks (bad : Nat) : ChecksChunks crc32cOptions (damagedRead bad) :=
  ⟨by decide, rfl, rfl⟩

/-- The checksum of the first chunk fails, the second chunk passes, and `verify_io_u` returns 0. -/
theorem verifyIoU_forgets_first_chunk :
    (∃ i, Examines sumChecksums crc32cOptions (damagedRead 100) i ∧
      chunkCheck sumChecksums crc32cOptions (damagedRead 100) i ≠ some 0) ∧
      ¬ReturnsNonzero sumChecksums crc32cOptions (damagedRead 100) := by
  have hin : ∀ l, InBuf crc32cOptions (damagedRead 100) l ↔ l < 2 := fun l =>
    show l * 128 < 256 ↔ l < 2 by omega
  have hchecks : ∀ l < 2, chunkCheck sumChecksums crc32cOptions (damagedRead 100) l =
      some (if l = 0 then eilseq else 0) := by decide +kernel
  refine ⟨⟨0, ⟨damagedRead_checksChunks 100, by decide, nofun⟩, by simp [hchecks, eilseq]⟩, ?_⟩
  rintro ⟨fuel, res, hrun, hne⟩
  have hlast := (returns_iff_of_good (damagedRead_checksChunks 100) hin hchecks).1
    ⟨fuel, res, hrun, rfl⟩
  exact hne hlast.symm

theorem verifyIoU_reports_last_chunk :
    ReturnsNonzero sumChecksums crc32cOptions (damagedRead 228) := by
  have hfirst : chunkCheck sumChecksums crc32cOptions (damagedRead 228) 0 ≠ none := by decide +kernel
  have hfails : chunkCheck sumChecksums crc32cOptions (damagedRead 228) 1 ≠ some 0 := by
    decide +kernel
  have hexamines : Examines sumChecksums crc32cOptions (damagedRead 228) 1 :=
    ⟨damagedRead_checksChunks 228, by decide, fun l hl => Nat.lt_one_iff.1 hl ▸ hfirst⟩
  exact (verifyIoU_reports_iff rfl).2 (.inr (.inl ⟨1, hexamines, by decide, hfails⟩))
    ⟨1, hexamines, hfails⟩

end FioSsd
