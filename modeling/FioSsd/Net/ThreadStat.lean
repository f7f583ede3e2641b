import FioSsd.Lib.Endian

/-! # Job statistics on the wire -/

namespace FioSsd

open Option

/-- `struct io_stat`; `W k` is a word of `k` bytes, `F` a `fio_fp64_t`. -/
@[ext] structure IoStat (W : Nat → Type) (F : Type) where
  maxVal : W 8
  minVal : W 8
  samples : W 8
  mean : F
  S : F

def fioJobnameSize : Nat := 128

/-- `FIO_IO_U_MAP_NR`, `FIO_IO_U_LAT_U_NR`, `FIO_IO_U_LAT_M_NR`, `FIO_IO_U_PLAT_NR` and
    `FIO_IO_U_LIST_MAX_LEN`. -/
def fioIoUMapNr : Nat := 7
@[inherit_doc fioIoUMapNr] def fioIoULatUNr : Nat := 10
@[inherit_doc fioIoUMapNr] def fioIoULatMNr : Nat := 12
@[inherit_doc fioIoUMapNr] def fioIoUPlatNr : Nat := 19 * 64
@[inherit_doc fioIoUMapNr] def fioIoUListMaxLen : Nat := 20

abbrev NameBuf : Type := Fin fioJobnameSize → UInt8

structure ThreadStat (W : Nat → Type) (F : Type) where
  (name verror description : NameBuf)
  (error groupid pid members : W 4)
  (clatStat slatStat latStat bwStat iopsStat : Fin 2 → IoStat W F)
  (usrTime sysTime ctx minf majf clatPercentiles : W 8)
  percentileList : Fin fioIoUListMaxLen → F
  (ioUMap ioUSubmit ioUComplete : Fin fioIoUMapNr → W 4)
  ioULatU : Fin fioIoULatUNr → W 4
  ioULatM : Fin fioIoULatMNr → W 4
  ioUPlat : Fin 2 → Fin fioIoUPlatNr → W 4
  (totalIoU shortIoU : Fin 3 → W 8)
  (totalSubmit totalComplete : W 8)
  (ioBytes runtime : Fin 2 → W 8)
  totalRunTime : W 8
  continueOnError : W 2
  totalErrCount : W 8
  (firstError kbBase : W 4)

structure GroupRunStats (W : Nat → Type) where
  (maxRun minRun maxBw minBw ioKb agg : Fin 2 → W 8)
  (kbBase groupid : W 4)

structure CmdTsPdu (W : Nat → Type) (F : Type) where
  ts : ThreadStat W F
  rs : GroupRunStats W

abbrev Word (k : Nat) : Type := BitVec (8 * k)

abbrev Wire (_ : Nat) : Type := List UInt8

/-- The machine's doubles: `fio_double_to_uint64` and `fio_uint64_to_double`, an exact inverse
    pair, and the double whose bytes in memory are given. -/
structure DoubleCodec (D : Type) where
  toUint64 : D → Word 8
  ofUint64 : Word 8 → D
  ofUint64_toUint64 : ∀ d, ofUint64 (toUint64 d) = d
  ofMem : List UInt8 → D

section Server

variable {D : Type} (c : DoubleCodec D) (b : ByteOrder)

/-- `cpu_to_le16`, `cpu_to_le32` or `cpu_to_le64` into the payload. -/
def putLe {k : Nat} (x : Word k) : Wire k := b.store (b.le x)

def putDouble (d : D) : Wire 8 := putLe b (c.toUint64 d)

def cleared (k : Nat) : Wire k := List.replicate k 0

def serverConvertIoStat (src : IoStat Word D) : IoStat Wire (Wire 8) :=
  { maxVal := putLe b src.maxVal, minVal := putLe b src.minVal, samples := putLe b src.samples
    mean := putDouble c b src.mean, S := putDouble c b src.S }

def serverConvertGs (src : GroupRunStats Word) : GroupRunStats Wire :=
  { maxRun := fun i => putLe b (src.maxRun i), minRun := fun i => putLe b (src.minRun i)
    maxBw := fun i => putLe b (src.maxBw i), minBw := fun i => putLe b (src.minBw i)
    ioKb := fun i => putLe b (src.ioKb i), agg := fun i => putLe b (src.agg i)
    kbBase := putLe b src.kbBase, groupid := putLe b src.groupid }

def strcpy (src : NameBuf) : Option NameBuf :=
  if ∃ i, src i = 0 then some fun i => if ∃ j, j < i ∧ src j = 0 then 0 else src i
  else none

def fioServerSendTs (ts : ThreadStat Word D) (rs : GroupRunStats Word) :
    Option (CmdTsPdu Wire (Wire 8)) := do
  let name ← strcpy ts.name
  let verror ← strcpy ts.verror
  let description ← strcpy ts.description
  return {
    ts := {
      name := name, verror := verror, description := description
      error := putLe b ts.error, groupid := putLe b ts.groupid, pid := putLe b ts.pid
      members := putLe b ts.members
      clatStat := fun i => serverConvertIoStat c b (ts.clatStat i)
      slatStat := fun i => serverConvertIoStat c b (ts.slatStat i)
      latStat := fun i => serverConvertIoStat c b (ts.latStat i)
      bwStat := fun i => serverConvertIoStat c b (ts.bwStat i)
      iopsStat := fun _ => ⟨cleared 8, cleared 8, cleared 8, cleared 8, cleared 8⟩
      usrTime := putLe b ts.usrTime, sysTime := putLe b ts.sysTime, ctx := putLe b ts.ctx
      minf := putLe b ts.minf, majf := putLe b ts.majf
      clatPercentiles := putLe b ts.clatPercentiles
      percentileList := fun i => putDouble c b (ts.percentileList i)
      ioUMap := fun i => putLe b (ts.ioUMap i)
      ioUSubmit := fun i => putLe b (ts.ioUSubmit i)
      ioUComplete := fun i => putLe b (ts.ioUComplete i)
      ioULatU := fun i => putLe b (ts.ioULatU i)
      ioULatM := fun i => if i.val < fioIoULatUNr then putLe b (ts.ioULatM i) else cleared 4
      ioUPlat := fun i j => putLe b (ts.ioUPlat i j)
      totalIoU := fun i => putLe b (ts.totalIoU i)
      shortIoU := fun i => putLe b (ts.shortIoU i)
      totalSubmit := putLe b ts.totalSubmit, totalComplete := putLe b ts.totalComplete
      ioBytes := fun i => putLe b (ts.ioBytes i)
      runtime := fun i => putLe b (ts.runtime i)
      totalRunTime := putLe b ts.totalRunTime
      continueOnError := putLe b ts.continueOnError
      totalErrCount := putLe b ts.totalErrCount
      firstError := putLe b ts.firstError, kbBase := putLe b ts.kbBase }
    rs := serverConvertGs b rs }

end Server

section Client

variable {D : Type} (c : DoubleCodec D) (b : ByteOrder)

/-- `le16_to_cpu`, `le32_to_cpu` or `le64_to_cpu` of a word of the payload. -/
def getLe {k : Nat} (bs : Wire k) : Word k := b.le (b.load k bs)

def getDouble (bs : Wire 8) : D := c.ofUint64 (getLe b bs)

def clientConvertIoStat (src : IoStat Wire (Wire 8)) : IoStat Word D :=
  { maxVal := getLe b src.maxVal, minVal := getLe b src.minVal, samples := getLe b src.samples
    mean := getDouble c b src.mean, S := getDouble c b src.S }

/-- An `io_stat` that no conversion has touched, as the client reads it. -/
def rawIoStat (src : IoStat Wire (Wire 8)) : IoStat Word D :=
  { maxVal := b.load 8 src.maxVal, minVal := b.load 8 src.minVal, samples := b.load 8 src.samples
    mean := c.ofMem src.mean, S := c.ofMem src.S }

/-- `convert_ts`, in place: what it does not convert is read as it lies there. -/
def convertTs (src : ThreadStat Wire (Wire 8)) : ThreadStat Word D :=
  { name := src.name, verror := src.verror, description := src.description
    error := getLe b src.error, groupid := getLe b src.groupid, pid := getLe b src.pid
    members := getLe b src.members
    clatStat := fun i => clientConvertIoStat c b (src.clatStat i)
    slatStat := fun i => clientConvertIoStat c b (src.slatStat i)
    latStat := fun i => clientConvertIoStat c b (src.latStat i)
    bwStat := fun i => clientConvertIoStat c b (src.bwStat i)
    iopsStat := fun i => rawIoStat c b (src.iopsStat i)
    usrTime := getLe b src.usrTime, sysTime := getLe b src.sysTime, ctx := getLe b src.ctx
    minf := getLe b src.minf, majf := getLe b src.majf
    clatPercentiles := getLe b src.clatPercentiles
    percentileList := fun i => getDouble c b (src.percentileList i)
    ioUMap := fun i => getLe b (src.ioUMap i)
    ioUSubmit := fun i => getLe b (src.ioUSubmit i)
    ioUComplete := fun i => getLe b (src.ioUComplete i)
    ioULatU := fun i => getLe b (src.ioULatU i)
    ioULatM := fun i => if i.val < fioIoULatUNr then getLe b (src.ioULatM i)
      else b.load 4 (src.ioULatM i)
    ioUPlat := fun i j => getLe b (src.ioUPlat i j)
    totalIoU := fun i => getLe b (src.totalIoU i)
    shortIoU := fun i => getLe b (src.shortIoU i)
    totalSubmit := getLe b src.totalSubmit, totalComplete := getLe b src.totalComplete
    ioBytes := fun i => getLe b (src.ioBytes i)
    runtime := fun i => getLe b (src.runtime i)
    totalRunTime := getLe b src.totalRunTime
    continueOnError := getLe b src.continueOnError
    totalErrCount := getLe b src.totalErrCount
    firstError := getLe b src.firstError, kbBase := getLe b src.kbBase }

end Client

variable {D : Type} (c : DoubleCodec D) (b b' : ByteOrder)

@[simp] lemma getLe_putLe {k : Nat} (x : Word k) : getLe b' (putLe b x) = x :=
  ByteOrder.le_load_store_le b b' x

@[simp] lemma getDouble_putDouble (d : D) : getDouble c b' (putDouble c b d) = d := by
  rw [getDouble, putDouble, getLe_putLe, c.ofUint64_toUint64]

@[simp] lemma clientConvertIoStat_serverConvertIoStat (stat : IoStat Word D) :
    clientConvertIoStat c b' (serverConvertIoStat c b stat) = stat := by
  simp [clientConvertIoStat, serverConvertIoStat]

def clearedIoStat : IoStat Word D := ⟨0, 0, 0, c.ofMem (cleared 8), c.ofMem (cleared 8)⟩

@[simp] lemma load_cleared (k : Nat) : b.load k (cleared k) = 0 := ByteOrder.load_zeros b k k

@[simp] lemma rawIoStat_cleared :
    rawIoStat c b ⟨cleared 8, cleared 8, cleared 8, cleared 8, cleared 8⟩ = clearedIoStat c := by
  simp [rawIoStat, clearedIoStat]

variable (ts : ThreadStat Word D)

def receivedTs (rs : GroupRunStats Word) : Option (ThreadStat Word D) :=
  (fioServerSendTs c b ts rs).map fun p => convertTs c b' p.ts

def ZeroPadded (buf : NameBuf) : Prop :=
  (∃ i, buf i = 0) ∧ ∀ i j, j < i → buf j = 0 → buf i = 0

/-- **What the payload leaves out is zero on the server**: the last entries of `io_u_lat_m`,
    `iops_stat`, and the bytes behind the three texts. -/
structure OmitsZeros (ts : ThreadStat Word D) : Prop where
  latM : ∀ i, fioIoULatUNr ≤ i.val → ts.ioULatM i = 0
  iops : ∀ i, ts.iopsStat i = clearedIoStat c
  name : ZeroPadded ts.name
  verror : ZeroPadded ts.verror
  description : ZeroPadded ts.description

lemma strcpy_eq_some_self_iff (buf : NameBuf) : strcpy buf = some buf ↔ ZeroPadded buf := by
  unfold strcpy
  constructor
  · intro hcp
    split_ifs at hcp with htr
    refine ⟨htr, fun i j hji hj => ?_⟩
    have hi := congrFun (Option.some.inj hcp) i
    rw [if_pos ⟨j, hji, hj⟩] at hi
    exact hi.symm
  · rintro ⟨htr, hpad⟩
    rw [if_pos htr]
    refine congrArg some (funext fun i => ?_)
    by_cases hpre : ∃ j, j < i ∧ buf j = 0
    · obtain ⟨j, hji, hj⟩ := hpre
      rw [if_pos ⟨j, hji, hj⟩, hpad i j hji hj]
    · rw [if_neg hpre]

/-- What arrives of the statistics: all but the texts' tails, `iops_stat` and the end of
    `io_u_lat_m`. -/
def arrives (name verror description : NameBuf) : ThreadStat Word D :=
  { ts with
    name := name, verror := verror, description := description
    iopsStat := fun _ => clearedIoStat c
    ioULatM := fun i => if i.val < fioIoULatUNr then ts.ioULatM i else 0 }

lemma receivedTs_eq (rs : GroupRunStats Word) :
    receivedTs c b b' ts rs = (strcpy ts.name).bind fun name => (strcpy ts.verror).bind fun verror =>
      (strcpy ts.description).map fun description => arrives c ts name verror description := by
  have hltm : ∀ i : Fin fioIoULatMNr, (if i.val < fioIoULatUNr then
      getLe b' (if i.val < fioIoULatUNr then putLe b (ts.ioULatM i) else cleared 4)
      else b'.load 4 (if i.val < fioIoULatUNr then putLe b (ts.ioULatM i) else cleared 4)) =
        if i.val < fioIoULatUNr then ts.ioULatM i else 0 := by
    intro i
    by_cases hi : i.val < fioIoULatUNr
    · simp [if_pos hi, getLe_putLe]
    · simp [if_neg hi, load_cleared]
  unfold receivedTs fioServerSendTs
  cases strcpy ts.name with
  | none => rfl
  | some name =>
    cases strcpy ts.verror with
    | none => rfl
    | some verror =>
      cases strcpy ts.description with
      | none => rfl
      | some description =>
        simp [convertTs, arrives, hltm]

/-- **Job statistics survive the network exactly when what the payload leaves out is zero.** -/
theorem receivedTs_eq_some_iff (ts : ThreadStat Word D) (rs : GroupRunStats Word) :
    receivedTs c b b' ts rs = some ts ↔ OmitsZeros c ts := by
  rw [receivedTs_eq]
  constructor
  · intro heq
    obtain ⟨name, hnm, heq⟩ := bind_eq_some_iff.1 heq
    obtain ⟨verror, hver, heq⟩ := bind_eq_some_iff.1 heq
    obtain ⟨description, hdsc, hts⟩ := map_eq_some_iff.1 heq
    have hltm := congrArg ThreadStat.ioULatM hts
    have hip := congrArg ThreadStat.iopsStat hts
    obtain rfl := congrArg ThreadStat.name hts
    obtain rfl := congrArg ThreadStat.verror hts
    obtain rfl := congrArg ThreadStat.description hts
    refine ⟨fun i hi => ?_, fun i => (congrFun hip i).symm, (strcpy_eq_some_self_iff _).1 hnm,
      (strcpy_eq_some_self_iff _).1 hver, (strcpy_eq_some_self_iff _).1 hdsc⟩
    have hen := congrFun hltm i
    simp only [arrives, if_neg (Nat.not_lt.2 hi)] at hen
    exact hen.symm
  · intro hzr
    rw [(strcpy_eq_some_self_iff _).2 hzr.name, (strcpy_eq_some_self_iff _).2 hzr.verror,
      (strcpy_eq_some_self_iff _).2 hzr.description]
    have hltm : (fun i : Fin fioIoULatMNr => if i.val < fioIoULatUNr then ts.ioULatM i else 0) =
        ts.ioULatM := by
      funext i
      by_cases hi : i.val < fioIoULatUNr
      · rw [if_pos hi]
      · rw [if_neg hi, hzr.latM i (Nat.not_lt.1 hi)]
    have hip := (funext hzr.iops).symm
    simp only [bind_some, map_some, arrives, hltm, hip]

def bitsCodec : DoubleCodec (Word 8) :=
  { toUint64 := id, ofUint64 := id, ofUint64_toUint64 := fun _ => rfl
    ofMem := fun bs => BitVec.ofNat _ (leNat bs) }

def oneBucket (bucket : Fin fioIoULatMNr) (count : Word 4) : ThreadStat Word (Word 8) :=
  { name := fun _ => 0, verror := fun _ => 0, description := fun _ => 0, error := 0, groupid := 0
    pid := 0, members := 0, clatStat := fun _ => clearedIoStat bitsCodec
    slatStat := fun _ => clearedIoStat bitsCodec, latStat := fun _ => clearedIoStat bitsCodec
    bwStat := fun _ => clearedIoStat bitsCodec, iopsStat := fun _ => clearedIoStat bitsCodec
    usrTime := 0, sysTime := 0, ctx := 0, minf := 0, majf := 0, clatPercentiles := 0
    percentileList := fun _ => 0, ioUMap := fun _ => 0, ioUSubmit := fun _ => 0
    ioUComplete := fun _ => 0, ioULatU := fun _ => 0
    ioULatM := fun i => if i = bucket then count else 0, ioUPlat := fun _ _ => 0
    totalIoU := fun _ => 0, shortIoU := fun _ => 0, totalSubmit := 0, totalComplete := 0
    ioBytes := fun _ => 0, runtime := fun _ => 0, totalRunTime := 0, continueOnError := 0
    totalErrCount := 0, firstError := 0, kbBase := 0 }

def noResults : GroupRunStats Word :=
  { maxRun := fun _ => 0, minRun := fun _ => 0, maxBw := fun _ => 0, minBw := fun _ => 0
    ioKb := fun _ => 0, agg := fun _ => 0, kbBase := 0, groupid := 0 }

def lastBucket : Fin fioIoULatMNr := ⟨11, by decide⟩

/-- One I/O that took 2 seconds or more is counted in the last bucket, which never leaves the
    server. -/
theorem receivedTs_loses_bucket :
    ∃ ts, receivedTs bitsCodec .little .little (oneBucket lastBucket 1) noResults = some ts ∧
      (oneBucket lastBucket 1).ioULatM lastBucket = 1 ∧ ts.ioULatM lastBucket = 0 := by
  have hcp := (strcpy_eq_some_self_iff _).2 ⟨⟨⟨0, by decide⟩, rfl⟩, fun _ _ _ _ => rfl⟩
  have hnm : strcpy (oneBucket lastBucket 1).name = some (fun _ => 0) := hcp
  have hver : strcpy (oneBucket lastBucket 1).verror = some (fun _ => 0) := hcp
  have hdsc : strcpy (oneBucket lastBucket 1).description = some (fun _ => 0) := hcp
  refine ⟨arrives bitsCodec (oneBucket lastBucket 1) (fun _ => 0) (fun _ => 0) (fun _ => 0), ?_,
    rfl, rfl⟩
  rw [receivedTs_eq, hnm, hver, hdsc]
  rfl

end FioSsd
