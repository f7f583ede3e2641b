import FioSsd.Verify.Header

/-! # `populate_verify_io_u` -/

namespace FioSsd

open Mem

variable {u : IoU} {fuel p' x : Nat} (k : Checksums) (o : ThreadOptions)

def goldenRatioPrime : BitVec 64 := 0x9e37fffffffc0001

def fillRandomBuf : Nat → Mem → Nat → BitVec 64 → Mem
  | 0, m, _, _ => m
  | words + 1, m, p, seed =>
    fillRandomBuf words (m.store p (leBytes 8 seed.toNat)) (p + 8)
      ((seed * goldenRatioPrime) >>> 3)

lemma fillRandomBuf_succ (words : Nat) :
    fillRandomBuf (words + 1) = fun m p seed =>
      fillRandomBuf words (m.store p (leBytes 8 seed.toNat)) (p + 8)
        ((seed * goldenRatioPrime) >>> 3) := by
  delta fillRandomBuf
  rfl

lemma fillRandomBuf_frame (words : Nat) (m : Mem) (p : Nat) (seed : BitVec 64) {x : Nat}
    (h : x < p ∨ p + 8 * words ≤ x) : fillRandomBuf words m p seed x = m x := by
  induction words generalizing m p seed with
  | zero => rfl
  | succ words ih =>
    rw [fillRandomBuf_succ]
    beta_reduce
    rw [ih _ _ _ (by omega), store_field_of_not_mem _ (by omega)]

/-- The `memcpy` loop of `fill_pattern`, by the number of bytes left. -/
def fillRepeated : Nat → Mem → Nat → Nat → Mem
  | 0, m, _, _ => m
  | fuel + 1, m, i, len =>
    if i < len then
      let size := min o.verifyPatternBytes (len - i)
      fillRepeated fuel (m.store i ((List.range size).map o.verifyPattern)) (i + size) len
    else m

/-- `fill_pattern` on the buffer of a unit; `seed` is what the random generator returns. -/
def fillPattern (ioU : IoU) (seed : BitVec 64) : IoU :=
  let len := ioU.buflen.toNat % 2 ^ 32
  if o.verifyPatternBytes = 0 then
    { ioU with buf := fillRandomBuf ((len + 7) / 8) ioU.buf 0 seed, randSeed := seed }
  else if len ≤ ioU.bufFilledLen.toNat then ioU
  else if o.verifyPatternBytes = 1 then
    { ioU with
      buf := ioU.buf.store 0 (List.replicate len (o.verifyPattern 0))
      bufFilledLen := BitVec.ofNat 64 len }
  else
    { ioU with buf := fillRepeated o len ioU.buf 0 len, bufFilledLen := BitVec.ofNat 64 len }

/-- What `fill_meta` stores of the job: `thread_number`, `io_issues[DDIR_WRITE]` and the start time
    of the unit. -/
structure MetaInfo where
  (thread numberio : Nat)
  (timeSec timeUsec : BitVec 64)

def storeUnique (m : Mem) (a : Nat) (u : FioUnique) : Mem :=
  (m.store a (leBytes 8 u.tvSec.toNat)).store (a + 8) (leBytes 8 u.word.toNat)

def storeFields (ioU : IoU) (m : Mem) (p headerNum headerLen : Nat) : Mem :=
  let offset := ioU.offset + BitVec.ofNat 64 (headerNum * headerLen % 2 ^ 32)
  let m := m.store p (leBytes 2 fioHdrMagic)
  let m := m.store (p + 2) (leBytes 2 o.verify.toNat)
  let m := m.store (p + 8) (leBytes 8 offset.toNat)
  let m := if o.verifyInner then storeUnique m (p + 40) (o.uniqueOps.copy ioU.uniqueVersion) else m
  let m := m.store (p + 16) (leBytes 4 headerLen)
  m.store (p + 24) (leBytes 8 ioU.randSeed.toNat)

def storeHdr (ioU : IoU) (m : Mem) (p headerNum headerLen : Nat) : Mem :=
  let m := storeFields o ioU m p headerNum headerLen
  m.store (p + 32) (k.crc32c (m.load p 32)).1

def fillDigest {n : Nat} (digest : List UInt8 → Digest n) (m : Mem) (p data dataLen : Nat) : Mem :=
  m.store (hdrPriv p) (digest (m.load data dataLen)).1

def fillMd5 := fillDigest k.md5

def fillCrc64 := fillDigest k.crc64

def fillCrc32c := fillDigest k.crc32c

def fillCrc32 := fillDigest k.crc32

def fillCrc16 := fillDigest k.crc16

def fillCrc7 := fillDigest k.crc7

def fillSha256 := fillDigest k.sha256

def fillSha512 := fillDigest k.sha512

def fillSha1 := fillDigest k.sha1

variable (info : MetaInfo)

def fillMeta (ioU : IoU) (m : Mem) (p headerNum : Nat) : Mem :=
  let offset := ioU.offset + BitVec.ofNat 64 (headerNum * o.verifyInterval.toNat % 2 ^ 32)
  let m := m.store (hdrPriv p + 8) (leBytes 1 info.thread)
  let m := m.store (hdrPriv p + 16) (leBytes 8 info.timeSec.toNat)
  let m := m.store (hdrPriv p + 24) (leBytes 8 info.timeUsec.toNat)
  let m := m.store (hdrPriv p + 10) (leBytes 2 info.numberio)
  m.store (hdrPriv p) (leBytes 8 offset.toNat)

/-- The `switch` on the verify type. -/
def fillByType (ioU : IoU) (m : Mem) (p headerNum headerLen : Nat) :
    Except Fault Mem :=
  let dataLen := (headerLen + 2 ^ 32 - hdrSize o.verify) % 2 ^ 32
  let data := p + hdrSize o.verify
  match o.verify with
  | .verifyMd5 => .ok (fillMd5 k m p data dataLen)
  | .verifyCrc64 => .ok (fillCrc64 k m p data dataLen)
  | .verifyCrc32c | .verifyCrc32cIntel => .ok (fillCrc32c k m p data dataLen)
  | .verifyCrc32 => .ok (fillCrc32 k m p data dataLen)
  | .verifyCrc16 => .ok (fillCrc16 k m p data dataLen)
  | .verifyCrc7 => .ok (fillCrc7 k m p data dataLen)
  | .verifySha256 => .ok (fillSha256 k m p data dataLen)
  | .verifySha512 => .ok (fillSha512 k m p data dataLen)
  | .verifyMeta => .ok (fillMeta o info ioU m p headerNum)
  | .verifySha1 => .ok (fillSha1 k m p data dataLen)
  | .verifyPattern => .ok m
  | .verifyNone | .verifyNull => .error (.assertFailed .populateHdr)

def populateHdr (ioU : IoU) (m : Mem) (p headerNum headerLen : Nat) :
    Except Fault Mem := do
  let m ← fillByType k o info ioU (storeHdr k o ioU m p headerNum headerLen) p headerNum headerLen
  return swapHdr o m p (hdrSize o.verify)

def populateLoop (info : MetaInfo) (ioU : IoU) : Nat → Nat → Nat → Mem → Except Fault Mem
  | 0, _, _, _ => .error .outOfFuel
  | fuel + 1, p, headerNum, m =>
    if p < ioU.buflen.toNat then do
      let m ← populateHdr k o info ioU m p headerNum (getHdrInc o ioU)
      populateLoop info ioU fuel (p + getHdrInc o ioU) ((headerNum + 1) % 2 ^ 32) m
    else .ok m

def fillPatternHeaders (seed : BitVec 64) (ioU : IoU) (fuel : Nat) :
    Except Fault IoU := do
  let ioU := fillPattern o ioU seed
  return { ioU with buf := ← populateLoop k o info ioU fuel 0 0 ioU.buf }

def populateVerifyIoU (seed : BitVec 64) (ioU : IoU) (fuel : Nat) :
    Except Fault IoU :=
  if o.verify = .verifyNull then .ok ioU else fillPatternHeaders k o info seed ioU fuel

/-- The header of chunk `headerNum` of the write `w` stands at `p`, as far as `verify_io_u` reads it. -/
structure HdrAt (w : IoU) (m : Mem) (p headerNum headerLen : Nat) : Prop where
  magic : (readHdr m p).magic = fioHdrMagic
  verifyType : (readHdr m p).verifyType = o.verify.toNat
  offset : (readHdr m p).offset = w.offset + BitVec.ofNat 64 (headerNum * headerLen % 2 ^ 32)
  len : (readHdr m p).len = headerLen
  crc32 : (k.crc32c (m.load p 32)).1 = (readHdr m p).crc32
  version : o.verifyInner = true → (readHdr m p).uniqueVersion = w.uniqueVersion

/-- The chunk at `p` has its header, and behind it the checksum of its data or the position that
    `fill_meta` computes. -/
structure Headed (w : IoU) (m : Mem) (p headerNum headerLen : Nat) : Prop where
  hdr : HdrAt k o w m p headerNum headerLen
  digest : ∀ d, k.digest? o.verify = some d → m.load (hdrPriv p) (vhdrSize o.verify) =
    (d (m.load (p + hdrSize o.verify) (headerLen - hdrSize o.verify))).1
  metaOffset : o.verify = .verifyMeta → loadU64 m (hdrPriv p) =
    w.offset + BitVec.ofNat 64 (headerNum * o.verifyInterval.toNat % 2 ^ 32)

variable {k o} {m m' : Mem}

lemma loadU64_congr {a a' : Nat} (h : ∀ i < 8, m (a + i) = m' (a' + i)) :
    loadU64 m a = loadU64 m' a' := by
  unfold loadU64
  rw [load_congr h]

@[simp] lemma loadU64_store (m : Mem) (a : Nat) (v : BitVec 64) :
    loadU64 (m.store a (leBytes 8 v.toNat)) a = v := by
  rw [loadU64, load_store_leBytes, leNat_leBytes_of_lt v.isLt, BitVec.ofNat_toNat,
    BitVec.setWidth_eq]

lemma readHdr_congr {p : Nat}
    (h : ∀ i < verifyHeaderSize, m (p + i) = m' (p' + i)) : readHdr m p = readHdr m' p' := by
  have hfl : ∀ d n, d + n ≤ verifyHeaderSize → m.load (p + d) n = m'.load (p' + d) n := by
    intro d n hd
    apply load_congr
    intro i hi
    rw [add_assoc, add_assoc]
    exact h (d + i) (by omega)
  unfold verifyHeaderSize at hfl
  have hmg := hfl 0 2 (by omega)
  simp only [add_zero] at hmg
  unfold readHdr loadU64
  rw [hmg, hfl 2 2 (by omega), hfl 8 8 (by omega), hfl 16 4 (by omega),
    hfl 24 8 (by omega), hfl 32 4 (by omega), hfl 40 8 (by omega), hfl 48 8 (by omega)]

variable {p num len : Nat}

lemma HdrAt.congr {w : IoU} (hdr : HdrAt k o w m p num len)
    (h : ∀ i < verifyHeaderSize, m (p + i) = m' (p' + i)) : HdrAt k o w m' p' num len := by
  have hread := readHdr_congr h
  have hcrc : m.load p 32 = m'.load p' 32 :=
    load_congr fun i hi => h i (by unfold verifyHeaderSize; omega)
  constructor <;> rw [← hread]
  · exact hdr.magic
  · exact hdr.verifyType
  · exact hdr.offset
  · exact hdr.len
  · rw [← hcrc]
    exact hdr.crc32
  · exact hdr.version

lemma Headed.congr {w : IoU} (hchu : Headed k o w m p num len)
    (hlen : hdrSize o.verify ≤ len) (h : ∀ i < len, m (p + i) = m' (p' + i)) :
    Headed k o w m' p' num len := by
  have hsz : hdrSize o.verify = vhdrSize o.verify + 56 := rfl
  have hpr : ∀ i < vhdrSize o.verify, m (hdrPriv p + i) = m' (hdrPriv p' + i) := by
    intro i hi
    unfold hdrPriv verifyHeaderSize
    rw [add_assoc, add_assoc]
    exact h (56 + i) (by omega)
  have hdt : m.load (p + hdrSize o.verify) (len - hdrSize o.verify) =
      m'.load (p' + hdrSize o.verify) (len - hdrSize o.verify) := by
    apply load_congr
    intro i hi
    rw [add_assoc, add_assoc]
    exact h _ (by omega)
  refine ⟨hchu.hdr.congr fun i hi => h i ?_, fun d hd => ?_, fun hmt => ?_⟩
  · have := verifyHeaderSize_le_hdrSize o.verify
    omega
  · rw [← load_congr hpr, ← hdt]
    exact hchu.digest d hd
  · rw [← hchu.metaOffset hmt]
    symm
    apply loadU64_congr
    intro i hi
    exact hpr i (by rw [hmt]; exact hi.trans_le (by decide))

section

variable (w : IoU) (m : Mem) (p num len : Nat)

lemma storeUnique_frame {a : Nat} {u : FioUnique} (h : x < a ∨ a + 16 ≤ x) :
    storeUnique m a u x = m x := by
  unfold storeUnique
  repeat rw [store_field_of_not_mem _ (by omega)]

lemma storeFields_frame (h : x < p ∨ p + verifyHeaderSize ≤ x) :
    storeFields o w m p num len x = m x := by
  unfold verifyHeaderSize at h
  unfold storeFields
  repeat rw [store_field_of_not_mem _ (by omega)]
  split_ifs
  · rw [storeUnique_frame _ (by omega)]
    repeat rw [store_field_of_not_mem _ (by omega)]
  · repeat rw [store_field_of_not_mem _ (by omega)]

lemma storeHdr_frame (h : x < p ∨ p + verifyHeaderSize ≤ x) :
    storeHdr k o w m p num len x = m x := by
  rw [storeHdr, store_of_not_mem _ (by rw [(k.crc32c _).2]; unfold verifyHeaderSize at h; omega),
    storeFields_frame w m p num len h]

lemma storeHdr_congr {w : IoU} {m m' : Mem} {p num len : Nat} (h : ∀ x, p ≤ x → m x = m' x)
    (hx : p ≤ x) : storeHdr k o w m p num len x = storeHdr k o w m' p num len x := by
  have hfld : ∀ y, p ≤ y → storeFields o w m p num len y = storeFields o w m' p num len y := by
    intro y hy
    unfold storeFields storeUnique
    split_ifs
    all_goals repeat apply store_congr
    all_goals exact h y hy
  rw [storeHdr, load_congr fun i _ => hfld (p + i) (Nat.le_add_right p i)]
  exact store_congr _ _ (hfld x hx)

lemma readHdr_storeFields (h : len < 2 ^ 32) : readHdr (storeFields o w m p num len) p =
      { magic := fioHdrMagic
        verifyType := o.verify.toNat
        offset := w.offset + BitVec.ofNat 64 (num * len % 2 ^ 32)
        len := len
        randSeed := w.randSeed
        crc32 := m.load (p + 32) 4
        uniqueVersion :=
          if o.verifyInner then w.uniqueVersion else ⟨loadU64 m (p + 40), loadU64 m (p + 48)⟩ } := by
  have hmg : leNat (leBytes 2 fioHdrMagic) = fioHdrMagic := leNat_leBytes_of_lt (by decide)
  have hty := leNat_leBytes_of_lt o.verify.toNat_lt
  have hln' : leNat (leBytes 4 len) = len := leNat_leBytes_of_lt h
  have hwr : ∀ v : BitVec 64, BitVec.ofNat 64 (leNat (leBytes 8 v.toNat)) = v := by
    intro v
    rw [leNat_leBytes_of_lt v.isLt, BitVec.ofNat_toNat, BitVec.setWidth_eq]
  unfold readHdr storeFields loadU64
  cases o.verifyInner with
  | true =>
    simp (disch := omega) only [load_store_field, load_store_leBytes,
      hmg, hty, hln', hwr, if_true, storeUnique, UniqueOps.copy]
  | false =>
    simp (disch := omega) only [load_store_field, load_store_leBytes, hmg, hty,
      hln', hwr, if_false, Bool.false_eq_true]

lemma storeHdr_hdrAt (hlen : len < 2 ^ 32) :
    HdrAt k o w (storeHdr k o w m p num len) p num len := by
  have hfld := readHdr_storeFields (o := o) w m p num len hlen
  set f := storeFields o w m p num len with hf
  -- the checksum is stored behind the fields it covers and before the version
  have hcrc : (k.crc32c (f.load p 32)).1.length = 4 := (k.crc32c _).2
  have hoth : ∀ a n, a + n ≤ p + 32 ∨ p + 36 ≤ a →
      (storeHdr k o w m p num len).load a n = f.load a n := by
    intro a n h
    exact load_store_disjoint f (by rw [hcrc]; omega)
  have hread : readHdr (storeHdr k o w m p num len) p =
      { readHdr f p with crc32 := (k.crc32c (f.load p 32)).1 } := by
    unfold readHdr loadU64
    rw [hoth p 2 (by omega), hoth _ 2 (by omega), hoth _ 8 (by omega), hoth _ 4 (by omega),
      hoth (p + 24) 8 (by omega), hoth (p + 40) 8 (by omega), hoth (p + 48) 8 (by omega)]
    rw [storeHdr, load_store_same _ _ _ hcrc]
  rw [hfld] at hread
  constructor <;> simp only [hread, hoth p 32 (by omega)]
  · intro hin
    rw [if_pos hin]

lemma fillDigest_frame {n : Nat} (digest : List UInt8 → Digest n) {data dataLen : Nat}
    (h : x < hdrPriv p ∨ hdrPriv p + n ≤ x) : fillDigest digest m p data dataLen x = m x :=
  store_of_not_mem m (by rwa [(digest _).2])

lemma fillMeta_frame (info : MetaInfo) (h : x < hdrPriv p ∨ hdrPriv p + 32 ≤ x) :
    fillMeta o info w m p num x = m x := by
  unfold fillMeta
  repeat rw [store_field_of_not_mem _ (by omega)]

variable {m' : Mem} {info : MetaInfo}

lemma fillByType_digest {d : List UInt8 → Digest (vhdrSize o.verify)}
    (h : k.digest? o.verify = some d) :
    fillByType k o info w m p num len = .ok (fillDigest d m p (p + hdrSize o.verify)
      ((len + 2 ^ 32 - hdrSize o.verify) % 2 ^ 32)) := by
  unfold fillByType
  revert d h
  generalize o.verify = t
  intro d h
  cases t with
  | verifyNone | verifyMeta | verifyPattern | verifyNull => exact absurd h (by simp [Checksums.digest?])
  | _ =>
    cases h
    rfl

lemma fillByType_meta (h : o.verify = .verifyMeta) :
    fillByType k o info w m p num len = .ok (fillMeta o info w m p num) := by
  unfold fillByType
  simp [h]

lemma fillByType_frame (h : fillByType k o info w m p num len = .ok m')
    (hx : x < hdrPriv p ∨ hdrPriv p + vhdrSize o.verify ≤ x) : m' x = m x := by
  cases hd : k.digest? o.verify with
  | some d =>
    rw [fillByType_digest w m p num len hd, Except.ok.injEq] at h
    rw [← h]
    exact fillDigest_frame m p d hx
  | none =>
    cases hv : o.verify with
    | verifyMeta =>
      rw [fillByType_meta w m p num len hv, Except.ok.injEq] at h
      rw [← h]
      rw [hv] at hx
      exact fillMeta_frame w m p num info hx
    | verifyPattern =>
      simp only [fillByType, hv, Except.ok.injEq] at h
      rw [h]
    | verifyNone | verifyNull =>
      simp only [fillByType, hv] at h
      cases h
    | _ =>
      rw [hv] at hd
      simp [Checksums.digest?] at hd

lemma fillByType_returns (h : o.verify ≠ .verifyNone) (hnl : o.verify ≠ .verifyNull) :
    ∃ m', fillByType k o info w m p num len = .ok m' := by
  unfold fillByType
  cases hv : o.verify with
  | verifyNone => exact absurd hv h
  | verifyNull => exact absurd hv hnl
  | _ => exact ⟨_, rfl⟩

lemma fillByType_headed (hdr : HdrAt k o w m p num len) (hsz : hdrSize o.verify ≤ len)
    (hlen : len < 2 ^ 32) (h : fillByType k o info w m p num len = .ok m') :
    Headed k o w m' p num len := by
  have hfr : ∀ {x}, x < hdrPriv p ∨ hdrPriv p + vhdrSize o.verify ≤ x → m' x = m x :=
    fillByType_frame w m p num len h
  unfold hdrPriv at hfr
  refine ⟨hdr.congr fun i hi => (hfr (by omega)).symm, fun d hd => ?_, fun hmt => ?_⟩
  · have hdt : m'.load (p + hdrSize o.verify) (len - hdrSize o.verify) =
        m.load (p + hdrSize o.verify) (len - hdrSize o.verify) := by
      apply load_congr
      intro i _
      exact hfr (by unfold hdrSize; omega)
    have hdtl : (len + 2 ^ 32 - hdrSize o.verify) % 2 ^ 32 = len - hdrSize o.verify := by omega
    rw [fillByType_digest w m p num len hd, hdtl, Except.ok.injEq] at h
    rw [hdt, ← h]
    exact load_store_same m _ _ (d _).2
  · rw [fillByType_meta w m p num len hmt, Except.ok.injEq] at h
    rw [← h]
    exact loadU64_store _ _ _

variable (k o) in
/-- The chunk at `p` is as `populate_hdr` leaves it: with its header in place once that is swapped
    back. -/
def Written (w : IoU) (m : Mem) (p num len : Nat) : Prop :=
  Headed k o w (swapHdr o m p (hdrSize o.verify)) p num len

variable {w m p num len}

lemma Written.congr {m2 : Mem} {q : Nat} (hchu : Written k o w m p num len)
    (hplc : HeaderPlaced o len) (hsz : hdrSize o.verify ≤ len)
    (h : ∀ i < len, m (p + i) = m2 (q + i)) : Written k o w m2 q num len :=
  Headed.congr hchu hsz fun _ hi => swapHdr_congr hplc.inside hsz h hi

lemma populateHdr_written (hplc : HeaderPlaced o len) (hsz : hdrSize o.verify ≤ len)
    (hlen : len < 2 ^ 32) (h : populateHdr k o info w m p num len = .ok m') :
    Written k o w m' p num len := by
  obtain ⟨m1, hfl, h⟩ := of_bind h
  cases h
  rw [Written, swapHdr_swapHdr hplc]
  exact fillByType_headed w _ p num len (storeHdr_hdrAt w m p num len hlen) hsz hlen hfl

lemma populateHdr_frame (hins : HeaderInside o len) (hsz : hdrSize o.verify ≤ len)
    (h : populateHdr k o info w m p num len = .ok m') (hx : x < p ∨ p + len ≤ x) : m' x = m x := by
  obtain ⟨m1, hfl, h⟩ := of_bind h
  cases h
  have hhdr := verifyHeaderSize_le_hdrSize o.verify
  have hsum : hdrSize o.verify = vhdrSize o.verify + verifyHeaderSize := rfl
  calc swapHdr o m1 p (hdrSize o.verify) x
      = m1 x := swapHdr_frame hins m1 hx
    _ = storeHdr k o w m p num len x :=
        fillByType_frame w _ p num len hfl (by unfold hdrPriv; omega)
    _ = m x := storeHdr_frame w m p num len (by omega)

lemma populateLoop_chunk (hins : HeaderInside o (getHdrInc o w))
    (hsz : hdrSize o.verify ≤ getHdrInc o w) (fuel i : Nat)
    (h : populateLoop k o info w fuel (i * getHdrInc o w) (i % 2 ^ 32) m = .ok m') :
    (∀ x < i * getHdrInc o w, m' x = m x) ∧ ∀ j, i ≤ j → j * getHdrInc o w < w.buflen.toNat →
      ∃ m1 m2, (∀ x, j * getHdrInc o w ≤ x → m1 x = m x) ∧
        populateHdr k o info w m1 (j * getHdrInc o w) (j % 2 ^ 32) (getHdrInc o w) = .ok m2 ∧
        ∀ x < j * getHdrInc o w + getHdrInc o w, m' x = m2 x := by
  induction fuel generalizing i m with
  | zero => exact absurd h (by simp [populateLoop])
  | succ fuel ih =>
    have hnum : (i % 2 ^ 32 + 1) % 2 ^ 32 = (i + 1) % 2 ^ 32 := by omega
    have hpos : i * getHdrInc o w + getHdrInc o w = (i + 1) * getHdrInc o w := by ring
    rw [populateLoop, hnum, hpos] at h
    split_ifs at h with hin
    · obtain ⟨m1, hrn, h⟩ := of_bind h
      obtain ⟨hpre, hrs⟩ := ih (i + 1) h
      refine ⟨fun x hx => ?_, fun j hij hj => ?_⟩
      · rw [hpre x (by omega)]
        exact populateHdr_frame hins hsz hrn (.inl hx)
      · rcases Nat.eq_or_lt_of_le hij with heq | hlt
        · subst heq
          exact ⟨m, m1, fun _ _ => rfl, hrn, fun x hx => hpre x (by omega)⟩
        · obtain ⟨m2, m3, hsam, hrn', hps⟩ := hrs j hlt hj
          refine ⟨m2, m3, fun x hx => ?_, hrn', hps⟩
          have hle := Nat.mul_le_mul_right (getHdrInc o w) (Nat.succ_le_of_lt hlt)
          rw [Nat.succ_mul] at hle
          rw [hsam x hx]
          exact populateHdr_frame hins hsz hrn (.inr (by omega))
    · cases h
      refine ⟨fun _ _ => rfl, fun j hij hj => absurd hj ?_⟩
      have := Nat.mul_le_mul_right (getHdrInc o w) hij
      omega

lemma populateLoop_returns (h : o.verify ≠ .verifyNone) (hnl : o.verify ≠ .verifyNull)
    (hinc : 0 < getHdrInc o w) (hfue : w.buflen.toNat - p < fuel) :
    ∃ m', populateLoop k o info w fuel p num m = .ok m' := by
  induction fuel generalizing p num m with
  | zero => exact absurd hfue (Nat.not_lt_zero _)
  | succ fuel ih =>
    rw [populateLoop]
    split_ifs with hin
    · have hfl : ∃ m1, fillByType k o info w (storeHdr k o w m p num (getHdrInc o w)) p num
          (getHdrInc o w) = .ok m1 := fillByType_returns w _ p num _ h hnl
      obtain ⟨m1, hfl⟩ := hfl
      have hrn : populateHdr k o info w m p num (getHdrInc o w) =
          .ok (swapHdr o m1 p (hdrSize o.verify)) := by
        rw [populateHdr, hfl]
        rfl
      rw [hrn]
      exact ih (by omega)
    · exact ⟨m, rfl⟩

lemma fillPattern_same (w : IoU) (seed : BitVec 64) :
    (fillPattern o w seed).buflen = w.buflen ∧ (fillPattern o w seed).offset = w.offset ∧
      (fillPattern o w seed).uniqueVersion = w.uniqueVersion := by
  unfold fillPattern
  simp only
  split_ifs <;> exact ⟨rfl, rfl, rfl⟩

lemma getHdrInc_congr {v : IoU} (h : u.buflen = v.buflen) : getHdrInc o u = getHdrInc o v := by
  unfold getHdrInc
  rw [h]

variable {seed : BitVec 64}

lemma populateVerifyIoU_returns (h : o.verify ≠ .verifyNone) (hinc : 0 < getHdrInc o w) :
    ∃ fuel w', populateVerifyIoU k o info seed w fuel = .ok w' := by
  by_cases hnl : o.verify = .verifyNull
  · exact ⟨0, w, if_pos hnl⟩
  · have hbfl := (fillPattern_same (o := o) w seed).1
    have hlp : ∃ m', populateLoop k o info (fillPattern o w seed) (w.buflen.toNat + 1) 0 0
        (fillPattern o w seed).buf = .ok m' :=
      populateLoop_returns h hnl (by rwa [getHdrInc_congr hbfl]) (by rw [hbfl]; omega)
    obtain ⟨m', hlp⟩ := hlp
    refine ⟨w.buflen.toNat + 1, { fillPattern o w seed with buf := m' }, ?_⟩
    simp only [populateVerifyIoU, fillPatternHeaders, if_neg hnl]
    rw [hlp]
    rfl

lemma HdrAt.of_same (h : HdrAt k o u m p num len) (hoft : u.offset = w.offset)
    (hvrs : u.uniqueVersion = w.uniqueVersion) : HdrAt k o w m p num len := by
  obtain ⟨hmg, hty, hoff, hlen, hcrc, hver⟩ := h
  rw [hoft] at hoff
  rw [hvrs] at hver
  exact ⟨hmg, hty, hoff, hlen, hcrc, hver⟩

lemma Written.of_same (h : Written k o u m p num len) (hoff : u.offset = w.offset)
    (hvrs : u.uniqueVersion = w.uniqueVersion) : Written k o w m p num len := by
  obtain ⟨hdr, hdgs, hmt⟩ := h
  rw [hoff] at hmt
  exact ⟨hdr.of_same hoff hvrs, hdgs, hmt⟩

lemma populateVerifyIoU_chunk {w' : IoU} (hnl : o.verify ≠ .verifyNull)
    (hins : HeaderInside o (getHdrInc o w)) (hsz : hdrSize o.verify ≤ getHdrInc o w)
    (h : populateVerifyIoU k o info seed w fuel = .ok w') {j : Nat}
    (hj : j * getHdrInc o w < w.buflen.toNat) :
    ∃ m1 m2, (∀ x, j * getHdrInc o w ≤ x → m1 x = (fillPattern o w seed).buf x) ∧
      populateHdr k o info (fillPattern o w seed) m1 (j * getHdrInc o w) (j % 2 ^ 32)
        (getHdrInc o w) = .ok m2 ∧ ∀ x < j * getHdrInc o w + getHdrInc o w, w'.buf x = m2 x := by
  have hbfl := (fillPattern_same (o := o) w seed).1
  rw [populateVerifyIoU, fillPatternHeaders, if_neg hnl] at h
  obtain ⟨m', hlp, h⟩ := of_bind h
  cases h
  rw [← getHdrInc_congr (o := o) hbfl] at hins hsz hj ⊢
  rw [← hbfl] at hj
  exact (populateLoop_chunk hins hsz fuel 0 (by simpa using hlp)).2 j (Nat.zero_le j) hj

lemma populateVerifyIoU_written {w' : IoU} (hnl : o.verify ≠ .verifyNull)
    (hplc : HeaderPlaced o (getHdrInc o w)) (hsz : hdrSize o.verify ≤ getHdrInc o w)
    (h : populateVerifyIoU k o info seed w fuel = .ok w') {j : Nat}
    (hj : j * getHdrInc o w < w.buflen.toNat) :
    Written k o w w'.buf (j * getHdrInc o w) (j % 2 ^ 32) (getHdrInc o w) := by
  obtain ⟨-, hoff, hvrs⟩ := fillPattern_same (o := o) w seed
  obtain ⟨m1, m2, -, hrn, hps⟩ := populateVerifyIoU_chunk hnl hplc.inside hsz h hj
  have hwrt := populateHdr_written hplc hsz (getHdrInc_lt o w) hrn
  refine Written.of_same (hwrt.congr hplc hsz fun i hi => ?_) hoff hvrs
  exact (hps _ (by omega)).symm

end

end FioSsd
