import FioSsd.Backend.ShortIo
import FioSsd.Verify.RoundTrip

/-! # Short verify reads

A verify read that an engine completes short is resubmitted like any other unit. The data end up
where they belong: `Resubmits.readUpTo` says that the rounds fill the buffer from its start. -/

namespace FioSsd

variable {b c : IoU} {n x : Nat} {t : Transfer} {k : Checksums} {hash : KeyHash} {o : ThreadOptions}

/-- The engine reads from `disk`, no more than it is asked to. -/
structure ReadsDisk (disk : Mem) (a : IoU) (t : Transfer) : Prop where
  atMost : TransfersAtMost a t
  fitsInt : t.resid ≠ 0 → a.xferBuflen.toNat - t.resid.toNat < 2 ^ 31
  buf : t.buf = a.buf.store a.xferBuf.toNat
    (disk.load a.offset.toNat (a.xferBuflen.toNat - t.resid.toNat))

/-- `c` is the read `a` after its first `n` bytes. -/
structure ReadUpTo (disk : Mem) (a c : IoU) (n : Nat) : Prop where
  le : n ≤ a.buflen.toNat
  offset : c.offset.toNat = a.offset.toNat + n
  xferBuf : c.xferBuf.toNat = n
  xferBuflen : c.xferBuflen.toNat = a.buflen.toNat - n
  bytes : ∀ x < n, c.buf x = disk (a.offset.toNat + x)

/-- A read as `get_next_verify` makes it: of an `unsigned int` length, inside the file. -/
structure NewRead (a : IoU) : Prop where
  isRead : a.ddir = .read
  atStart : a.xferBuf = 0
  whole : a.xferBuflen = a.buflen
  short : a.buflen.toNat < 2 ^ 32
  inFile : a.offset.toNat + a.buflen.toNat < 2 ^ 64

variable {a : IoU}

lemma NewRead.readUpTo (h : NewRead a) (disk : Mem) : ReadUpTo disk a a 0 where
  le := Nat.zero_le _
  offset := rfl
  xferBuf := by rw [h.atStart]; rfl
  xferBuflen := by rw [h.whole, Nat.sub_zero]
  bytes := nofun

variable {disk : Mem}

lemma ReadUpTo.bytes_transfer
    (h : ReadUpTo disk a c n) (hwr : ReadsDisk disk c t)
    (hx : x < n + (c.xferBuflen.toNat - t.resid.toNat)) : t.buf x = disk (a.offset.toNat + x) := by
  rw [hwr.buf, Mem.store_load, h.xferBuf, h.offset]
  split_ifs with hin
  · congr 1
    omega
  · exact h.bytes x (by omega)

variable {u : Nat}

lemma ReadUpTo.round (hnew : NewRead a) (h : ReadUpTo disk a c n)
    (hrou : ShortRound k hash o u c t b) (hwr : ReadsDisk disk c t) :
    ReadUpTo disk a b (n + (c.xferBuflen.toNat - t.resid.toNat)) := by
  obtain ⟨hrn, hbuf, hrs, hby⟩ := hrou.spec
  have hlt := resid_lt_of_shortBytes hwr.atMost hby
  have hsh := hnew.short
  have hin := hnew.inFile
  have hle := h.le
  have hlen := h.xferBuflen
  have hmv : ((shortBytes (c.transferred t)).signExtend 64).toNat =
      c.xferBuflen.toNat - t.resid.toNat := by
    have hst := @toNat_signExtend_sub c.xferBuflen t.resid (by omega) hlt
    rwa [if_pos (hwr.fitsInt hrs)] at hst
  constructor
  · omega
  · rw [hrn.offset]
    simp only [IoU.advance, BitVec.toNat_add, hmv]
    simp only [IoU.transferred, h.offset]
    omega
  · rw [hrn.xferBuf]
    simp only [IoU.advance, BitVec.toNat_add, hmv]
    simp only [IoU.transferred, h.xferBuf]
    omega
  · rw [hrn.xferBuflen, toNat_xferBuflen_advance]
    simp only [IoU.transferred]
    omega
  · intro x hx
    rw [hbuf]
    exact h.bytes_transfer hwr hx

variable {ts : List Transfer}

lemma Resubmits.readUpTo
    (hnew : NewRead a) (hr : Resubmits k hash o u (ReadsDisk disk) b ts c) (h : ReadUpTo disk a b n)
    : ∃ n', ReadUpTo disk a c n' := by
  induction hr generalizing n with
  | refl b => exact ⟨n, h⟩
  | short round works rest ih => exact ih (h.round hnew round works)

lemma AtCompletion.last {engine : IoU → Transfer → Prop} {td : Td}
    (h : AtCompletion k hash o u engine a ts td) (hall : (td.ioUs u).resid = 0) :
    ∃ c t, Resubmits k hash o u engine a ts c ∧ engine c t ∧ t.resid = 0 ∧
      (td.ioUs u).buf = t.buf := by
  cases h with
  | sync rounds unit works ret noError all queued =>
    obtain rfl := Td.tdIoQueue_completed ret queued
    exact ⟨_, _, rounds, works, all, by rw [Td.callQueue_unit]; rfl⟩
  | atEnd rounds unit works ret noError queued rest short file isEnd =>
    obtain rfl := Td.tdIoQueue_completed ret queued
    simp only [Td.setIoU, Function.update_self, Td.callQueue_unit] at hall
    exact absurd hall rest
  | async rounds unit works noError =>
    simp only [Td.setIoU, Function.update_self] at hall ⊢
    exact ⟨_, _, rounds, works, hall, rfl⟩

lemma AtCompletion.reads {td : Td} (hnew : NewRead a)
    (h : AtCompletion k hash o u (ReadsDisk disk) a ts td) (hall : (td.ioUs u).resid = 0)
    (hx : x < a.buflen.toNat) :
    (td.ioUs u).buf x = disk (a.offset.toNat + x) := by
  obtain ⟨c, t, hrnd, hwr, hrs, hbuf⟩ := h.last hall
  obtain ⟨n, hn⟩ := hrnd.readUpTo hnew (hnew.readUpTo disk)
  rw [hbuf]
  refine hn.bytes_transfer hwr ?_
  have hle := hn.le
  have hlen := hn.xferBuflen
  have h0 : t.resid.toNat = 0 := by rw [hrs]; rfl
  omega

/-- The verify read `a` of the part from chunk `s` on of the write `w`, whose bytes `m` are on disk. -/
structure VerifyRead (o : ThreadOptions) (w : IoU) (m disk : Mem) (a : IoU) (s : Nat) : Prop where
  new : NewRead a
  part : PartOf o w a s
  expected : Expected o w a s
  onDisk : ∀ x < a.buflen.toNat, disk (a.offset.toNat + x) = m (s * getHdrInc o w + x)

lemma returns_zero_of_null {x : IoU} (h : o.verify = .verifyNull) : Returns k o x 0 :=
  ⟨0, ⟨0, x.buf, false⟩, if_pos (.inl h), rfl⟩

section

variable {w a : IoU} {m disk : Mem} {s u : Nat} {ts : List Transfer} {td : Td}

lemma AtCompletion.buflen_eq (hcmp : AtCompletion k hash o u (ReadsDisk disk) a ts td) :
    (td.ioUs u).buflen = a.buflen := by
  obtain ⟨hrn, -⟩ := hcmp.spec fun _ _ h => h.atMost
  exact hrn.buflen.trans (shorts_spec ts a).2.2.1

section

variable (hread : VerifyRead o w m disk a s)

include hread

section

variable (hcmp : AtCompletion k hash o u (ReadsDisk disk) a ts td)

include hcmp

lemma VerifyRead.readsBack
    (hdn : (td.ioUs u).resid = 0) (htr : (td.ioUs u).trimmed = false) :
    ReadsBack o w m (td.ioUs u) s := by
  obtain ⟨hrn, -⟩ := hcmp.spec fun _ _ h => h.atMost
  obtain ⟨-, -, -, -, hddi⟩ := shorts_spec ts a
  have hlen := hcmp.buflen_eq
  refine ⟨hrn.ddir.trans (hddi.trans hread.new.isRead), htr, ?_, fun x hx => ?_⟩
  · have hpr := hread.part
    unfold PartOf at hpr ⊢
    rwa [hlen]
  · rw [hlen] at hx
    rw [hcmp.reads hread.new hdn hx, hread.onDisk x hx]

lemma VerifyRead.expected_iff :
    Expected o w (td.ioUs u) s ↔ ts = [] := by
  obtain ⟨hrn, hshr, -⟩ := hcmp.spec fun _ _ h => h.atMost
  obtain ⟨hoff, -⟩ := shorts_spec ts a
  have hlen : a.xferBuflen.toNat < 2 ^ 32 := by rw [hread.new.whole]; exact hread.new.short
  constructor
  · intro hexp
    have hmv : moved a.xferBuflen (ts.map Transfer.resid) = 0 := by
      have heq := hrn.offset.symm.trans (hexp.1.trans hread.expected.1.symm)
      rwa [hoff, add_eq_left] at heq
    exact List.map_eq_nil_iff.1 ((moved_eq_zero_iff hlen hshr).1 hmv)
  · rintro rfl
    refine ⟨hrn.offset.trans hread.expected.1, fun hin => ?_⟩
    rw [hrn.uniqueVersion]
    exact hread.expected.2 hin

lemma VerifyRead.buflen_ne_zero (hsh : ts ≠ []) :
    (td.ioUs u).buflen ≠ 0 := by
  obtain ⟨-, hshr, -⟩ := hcmp.spec fun _ _ h => h.atMost
  intro h0
  have hlt := hshr.leftover_lt (mt List.map_eq_nil_iff.1 hsh)
  rw [hread.new.whole, ← hcmp.buflen_eq, h0] at hlt
  exact Nat.not_lt_zero _ hlt

end

lemma VerifyRead.not_returns_zero (hlaid : LaidOut o w) (hall : AllWritten k o w m)
    (hnl : o.verify ≠ .verifyNull) (h : AtCompletion k hash o u (ReadsDisk disk) a ts td)
    (hdn : (td.ioUs u).resid = 0) (htr : (td.ioUs u).trimmed = false) (hsh : ts ≠ [])
    : ¬Returns k o (td.ioUs u) 0 := by
  intro hret
  have hbc := hread.readsBack h hdn htr
  have hexp := mt (hread.expected_iff h).1 hsh
  have hne := hread.buflen_ne_zero h hsh
  exact absurd ((hbc.returns_of_not_expected hlaid hall hnl hexp hne).1 hret) (by decide)

end

lemma partPasses_congr {x y : IoU} (h : x.buflen = y.buflen) :
    PartPasses o w m x s ↔ PartPasses o w m y s := by
  unfold PartPasses
  rw [chunks_congr h]

/-- **When a verify read passes** whose data on disk are as they were written: with `verify=null`,
    or if the engine completed it in one go and the type-specific check passes. -/
theorem verifyIoU_short_returns_iff {w' : IoU} {info : MetaInfo} {seed : BitVec 64} {fuel : Nat}
    (hlaid : o.verify ≠ .verifyNull → LaidOut o w ∧
      hdrSize o.verify + o.verify.blockSize ≤ getHdrInc o w)
    (hpop : populateVerifyIoU k o info seed w fuel = .ok w')
    (hread : VerifyRead o w w'.buf disk a s)
    (hcompletion : AtCompletion k hash o u (ReadsDisk disk) a ts td) (hdone : (td.ioUs u).resid = 0)
    (htrim : (td.ioUs u).trimmed = false) :
    Returns k o (td.ioUs u) 0 ↔ o.verify = .verifyNull ∨ ts = [] ∧ PartPasses o w w'.buf a s := by
  by_cases hnl : o.verify = .verifyNull
  · exact ⟨fun _ => .inl hnl, fun _ => returns_zero_of_null hnl⟩
  have hlaid := (hlaid hnl).1
  have hall := hlaid.allWritten hnl hpop
  have hbc := hread.readsBack hcompletion hdone htrim
  by_cases hsh : ts = []
  · have hexp := (hread.expected_iff hcompletion).2 hsh
    rw [hbc.returns_zero_iff hlaid hall hnl hexp, partPasses_congr hcompletion.buflen_eq]
    simp [hnl, hsh]
  · have hfl := hread.not_returns_zero hlaid hall hnl hcompletion hdone htrim hsh
    simp [hnl, hsh, hfl]

end

def read256 : IoU := { buflen := 256, xferBuflen := 256, file := some 0, free := false }

def readJob (ioU : IoU) : Td := {
  ioUs := fun _ => ioU
  hist := { files := fun _ => { realFileSize := 4096, isOpen := true } } }

/-- A completion of `ioU` from `disk` that leaves `resid` bytes. -/
def readHook (disk : Mem) (ioU : IoU) (resid : BitVec 32) : QueueHook where
  ret := fioQCompleted
  transfer := ⟨0, resid, ioU.buf.store ioU.xferBuf.toNat
    (disk.load ioU.offset.toNat (ioU.xferBuflen.toNat - resid.toNat))⟩
  verror := 0
  commit := 0

def secondHalf (disk : Mem) : IoU :=
  (read256.transferred (readHook disk read256 128).transfer).advance

lemma read256_verifyRead (m : Mem) : VerifyRead md5Options write256 m m read256 0 where
  new := ⟨rfl, rfl, rfl, by decide, by decide⟩
  part := .inl ⟨rfl, rfl⟩
  expected := by decide
  onDisk := fun x _ => by
    rw [show read256.offset.toNat = 0 from rfl, zero_mul]

lemma read256_shortRound (disk : Mem) :
    ShortRound sumChecksums (fun _ => 0) md5Options 0 read256 (readHook disk read256 128).transfer
      (secondHalf disk) := by
  let td1 := (readJob read256).callQueue 0 (readHook disk read256 128)
  let td2 := (td1.setIoU 0 (td1.ioUs 0).advance).requeueIoU 0
  have hby : shortBytes (td1.ioUs 0) = 128 :=
    show ((256 : BitVec 64) - (128 : BitVec 32).setWidth 64).setWidth 32 = 128 by decide
  have hoff : (td1.ioUs 0).advance.offset = 128 := by
    rw [IoU.advance, hby]
    exact show (0 : BitVec 64) + (128 : BitVec 32).signExtend 64 = 128 by decide
  have hdn : td1.queueCompleted sumChecksums (fun _ => 0) md5Options 0 0 0 = .ok (.requeued, td2) := by
    simp only [Td.queueCompleted, hby, hoff]
    rfl
  exact ⟨readJob read256, td1, td2, td2, td2.handOut 0, readHook disk read256 128, 0, 0,
    ⟨⟨rfl, rfl, rfl, rfl, rfl, rfl, rfl⟩, rfl⟩, rfl, rfl, rfl, hdn, rfl, rfl, rfl,
    ⟨⟨rfl, rfl, rfl, rfl, rfl, rfl, rfl⟩, rfl⟩⟩

/-- The job when `io_completed` gets the read `ioU`, completed by its last transfer. -/
def completedRead (disk : Mem) (ioU : IoU) : Td := (readJob ioU).callQueue 0 (readHook disk ioU 0)

lemma completedRead_atCompletion {ioU : IoU} (hfl : ioU.file = some 0) (hflg : ioU.flight = false)
    (hrnd : Resubmits sumChecksums (fun _ => 0) md5Options 0 (ReadsDisk disk) read256 ts ioU) :
    AtCompletion sumChecksums (fun _ => 0) md5Options 0 (ReadsDisk disk) read256 ts
      (completedRead disk ioU) := by
  have hwr : ReadsDisk disk ioU (readHook disk ioU 0).transfer :=
    ⟨Nat.zero_le _, fun h => absurd rfl h, rfl⟩
  have hun : SameRequest ((readJob ioU).ioUs 0) ioU := ⟨⟨rfl, rfl, rfl, rfl, rfl, rfl, rfl⟩, rfl⟩
  refine .sync hrnd hun hwr rfl rfl rfl ?_
  simp only [Td.tdIoQueue, show (readJob ioU).ioUs 0 = ioU from rfl, hfl, hflg]
  rfl

lemma write256_populated : ∃ fuel w',
    populateVerifyIoU sumChecksums md5Options ⟨1, 1, 0, 0⟩ 7 write256 fuel = .ok w' :=
  populateVerifyIoU_returns (by decide) write256_laidOut.inc_pos

/-- A read of 256 intact bytes that the engine completes in two halves fails. -/
theorem verifyIoU_rejects_split_read :
    ∃ fuel w', populateVerifyIoU sumChecksums md5Options ⟨1, 1, 0, 0⟩ 7 write256 fuel = .ok w' ∧
      ∃ ts td, VerifyRead md5Options write256 w'.buf w'.buf read256 0 ∧
        AtCompletion sumChecksums (fun _ => 0) md5Options 0 (ReadsDisk w'.buf) read256 ts td ∧
        (td.ioUs 0).resid = 0 ∧ (td.ioUs 0).trimmed = false ∧
        ¬Returns sumChecksums md5Options (td.ioUs 0) 0 := by
  have hlaid := write256_laidOut
  have hnl : md5Options.verify ≠ .verifyNull := by decide
  obtain ⟨fuel, w', hpop⟩ := write256_populated
  have hread := read256_verifyRead w'.buf
  have hfr : ReadsDisk w'.buf read256 (readHook w'.buf read256 128).transfer :=
    ⟨show 128 ≤ 256 by decide, fun _ => show 256 - 128 < 2 ^ 31 by decide, rfl⟩
  have hcmp := completedRead_atCompletion rfl rfl (.short (read256_shortRound w'.buf) hfr (.refl _))
  refine ⟨fuel, w', hpop, _, _, hread, hcmp, rfl, rfl, ?_⟩
  exact hread.not_returns_zero hlaid (hlaid.allWritten hnl hpop) hnl hcmp rfl rfl
    (List.cons_ne_nil _ _)

theorem verifyIoU_accepts_whole_read :
    ∃ fuel w', populateVerifyIoU sumChecksums md5Options ⟨1, 1, 0, 0⟩ 7 write256 fuel = .ok w' ∧
      Returns sumChecksums md5Options ((completedRead w'.buf read256).ioUs 0) 0 := by
  obtain ⟨fuel, w', hpop⟩ := write256_populated
  refine ⟨fuel, w', hpop, ?_⟩
  exact (verifyIoU_short_returns_iff (fun _ => ⟨write256_laidOut, by decide⟩) hpop
    (read256_verifyRead w'.buf) (completedRead_atCompletion rfl rfl (.refl _)) rfl rfl).2
    (.inr ⟨rfl, fun _ _ _ => typePasses_of_isChecksum rfl⟩)

end FioSsd
