import FioSsd.Net.ThreadStat

/-! # Commands over the network

`server.c`: `fio_net_send_cmd` cuts the payload of a command into frames of at most
`FIO_SERVER_MAX_PDU` bytes, each with a header of its own; `fio_net_recv_cmd` puts them together
again in a buffer that grows with each frame. -/

namespace FioSsd

variable {xs ys zs : List α} {k m : Nat} {α : Type} {opcode : Word 2} {tag : Word 8}

open List Nat

variable {done pdu : List UInt8} {n : Nat}

/-- `FIO_SERVER_VER`, `FIO_SERVER_MAX_PDU` and `FIO_NET_CMD_F_MORE`. -/
def fioServerVer : Word 2 := 6
@[inherit_doc fioServerVer] def fioServerMaxPdu : Nat := 1024
@[inherit_doc fioServerVer] def fioNetCmdFMore : Word 4 := 1

def fioNetCmdJob : Word 2 := 3
def fioNetCmdText : Word 2 := 5

structure NetHeader where
  (version opcode : Word 2)
  flags : Word 4
  tag : Word 8
  pduLen : Word 4
  (cmdCrc16 pduCrc16 : Word 2)
  deriving DecidableEq, Repr

def netHeaderSize : Nat := 24

structure NetCmd where
  opcode : Word 2
  payload : List UInt8
  tag : Word 8
  flags : Word 4
  deriving DecidableEq, Repr

section Send

variable (crc : List UInt8 → Word 2) (b : ByteOrder)

/-- The checksummed part of a header: `fio_init_net_cmd`, and the flag of a frame that is not the
    last. -/
def frameHead (opcode : Word 2) (pdu : List UInt8) (tag : Word 8) (more : Bool) : List UInt8 :=
  putLe b fioServerVer ++ (putLe b opcode ++
    (putLe b (if more then fioNetCmdFMore else (0 : Word 4)) ++ (putLe b tag ++
      putLe b (BitVec.ofNat _ pdu.length : Word 4))))

def frameHeader (opcode : Word 2) (pdu : List UInt8) (tag : Word 8) (more : Bool) : List UInt8 :=
  frameHead b opcode pdu tag more ++
    (putLe b (crc (frameHead b opcode pdu tag more)) ++
      putLe b (if pdu.length ≠ 0 then crc pdu else (0 : Word 2)))

def fioNetSendCmd (opcode : Word 2) (buf : List UInt8) (tag : Word 8) : List UInt8 :=
  let thisLen := min buf.length fioServerMaxPdu
  frameHeader crc b opcode (buf.take thisLen) tag (thisLen < buf.length) ++ (buf.take thisLen ++
    if _h : fioServerMaxPdu < buf.length then fioNetSendCmd opcode (buf.drop thisLen) tag else [])
termination_by buf.length
decreasing_by
  simp only [List.length_drop, fioServerMaxPdu] at *
  omega

end Send

structure PayloadWrite where
  (start len room : Nat)
  deriving DecidableEq, Repr

/-- The local variables of `fio_net_recv_cmd`: `cmdret` as its header and payload memory (`first`
    says whether there is one yet), and the stores of payload so far. -/
structure RecvState where
  first : Bool
  cmdret : NetHeader
  payload : Mem
  (cmdSize pduOffset : Nat)
  writes : List PayloadWrite

structure RecvResult where
  cmd : Option NetCmd
  rest : List UInt8
  writes : List PayloadWrite

section Receive

variable (crc : List UInt8 → Word 2) (b : ByteOrder)

def verifyConvertCmd (bs : List UInt8) : Option NetHeader :=
  let cmd : NetHeader :=
    { version := getLe b (bs.take 2)
      opcode := getLe b ((bs.drop 2).take 2)
      flags := getLe b ((bs.drop 4).take 4)
      tag := getLe b ((bs.drop 8).take 8)
      pduLen := getLe b ((bs.drop 16).take 4)
      cmdCrc16 := getLe b ((bs.drop 20).take 2)
      pduCrc16 := getLe b ((bs.drop 22).take 2) }
  if crc (bs.take 20) ≠ cmd.cmdCrc16 then none
  else if cmd.version ≠ fioServerVer then none
  else if fioServerMaxPdu < cmd.pduLen.toNat then none
  else some cmd

variable (s : RecvState)

/-- The end of `fio_net_recv_cmd` without an error: texts and jobs are terminated, the fragment
    flag is cleared. -/
def recvFinish (rest : List UInt8) : RecvResult :=
  let len := s.cmdret.pduLen.toNat
  let terminated := len ≠ 0 ∧ (s.cmdret.opcode = fioNetCmdText ∨ s.cmdret.opcode = fioNetCmdJob)
  let payload := if terminated then s.payload.store len [0] else s.payload
  { cmd := some ⟨s.cmdret.opcode, payload.load 0 len, s.cmdret.tag,
      s.cmdret.flags &&& ~~~fioNetCmdFMore⟩
    rest := rest
    writes := if terminated then s.writes ++ [⟨len, 1, s.cmdSize - netHeaderSize⟩] else s.writes }

def recvFail (rest : List UInt8) : RecvResult := ⟨none, rest, s.writes⟩

/-- What a frame with payload does to the variables once its bytes are there. -/
def takePayload (cmd : NetHeader) (pdu : List UInt8) : RecvState :=
  { s with
    first := false
    cmdret := if s.first then s.cmdret else { s.cmdret with pduLen := s.cmdret.pduLen + cmd.pduLen }
    payload := s.payload.store s.pduOffset pdu
    pduOffset := s.pduOffset + cmd.pduLen.toNat
    writes := s.writes ++ [⟨s.pduOffset, pdu.length, s.cmdSize - netHeaderSize⟩] }

def growFor (cmd : NetHeader) : RecvState :=
  if s.first then { s with cmdSize := netHeaderSize + cmd.pduLen.toNat + 1, cmdret := cmd }
  else { s with cmdSize := s.cmdSize + cmd.pduLen.toNat }

def recvLoop (s : RecvState) (stream : List UInt8) : RecvResult :=
  if _hlen : stream.length < netHeaderSize then recvFail s []
  else
    match verifyConvertCmd crc b (stream.take netHeaderSize) with
    | none => recvFail s (stream.drop netHeaderSize)
    | some cmd =>
      let wasFirst := s.first
      let s := growFor s cmd
      let stream' := stream.drop netHeaderSize
      if wasFirst = false ∧ s.cmdret.opcode ≠ cmd.opcode then recvFail s stream'
      else if cmd.pduLen = 0 then recvFinish s stream'
      else
        let pdu := stream'.take cmd.pduLen.toNat
        let s := takePayload s cmd pdu
        let stream' := stream'.drop cmd.pduLen.toNat
        if pdu.length < cmd.pduLen.toNat then recvFail s []
        else if crc pdu ≠ cmd.pduCrc16 then recvFail s stream'
        else if cmd.flags &&& fioNetCmdFMore ≠ 0 then recvLoop s stream'
        else recvFinish s stream'
termination_by stream.length
decreasing_by
  simp only [List.length_drop, netHeaderSize] at *
  omega

def fioNetRecvCmd (stream : List UInt8) : RecvResult :=
  recvLoop crc b
    { first := true, cmdret := ⟨0, 0, 0, 0, 0, 0, 0⟩, payload := fun _ => 0, cmdSize := 0
      pduOffset := 0, writes := [] } stream

def recvCmds : Nat → List UInt8 → List NetCmd
  | 0, _ => []
  | n + 1, stream =>
    match (fioNetRecvCmd crc b stream).cmd with
    | none => []
    | some cmd => cmd :: recvCmds n (fioNetRecvCmd crc b stream).rest

end Receive

def PayloadWrite.Inside (w : PayloadWrite) : Prop := w.start + w.len ≤ w.room

structure Roomy (s : RecvState) (n : Nat) : Prop where
  inside : ∀ w ∈ s.writes, w.Inside
  size : s.cmdSize = netHeaderSize + s.pduOffset + n + 1
  len : s.cmdret.pduLen.toNat ≤ s.pduOffset + n

def LoopHead (s : RecvState) : Prop :=
  (s.first = true ∧ s.pduOffset = 0 ∧ ∀ w ∈ s.writes, w.Inside) ∨ (s.first = false ∧ Roomy s 0)

variable {s : RecvState}

lemma LoopHead.inside (h : LoopHead s) : ∀ w ∈ s.writes, w.Inside := by
  rcases h with ⟨-, -, hin⟩ | ⟨-, hrm⟩
  · exact hin
  · exact hrm.inside

variable {s : RecvState}

lemma LoopHead.growFor (h : LoopHead s) (cmd : NetHeader) :
    Roomy (growFor s cmd) cmd.pduLen.toNat := by
  unfold FioSsd.growFor
  rcases h with ⟨hfr, hoff, hin⟩ | ⟨hlat, hrm⟩
  · rw [if_pos hfr]
    exact ⟨hin, by simp only [hoff]; omega, by simp only [hoff]; omega⟩
  · rw [if_neg (by simp [hlat])]
    have hsz := hrm.size
    have hlen := hrm.len
    exact ⟨hrm.inside, by simp only; omega, by simp only; omega⟩

lemma Roomy.takePayload {cmd : NetHeader} (hs : Roomy s cmd.pduLen.toNat)
    (hgr : s.first = true → s.cmdret.pduLen = cmd.pduLen)
    (h : s.first = false → s.cmdret.pduLen.toNat ≤ s.pduOffset)
    (hpdu : pdu.length ≤ cmd.pduLen.toNat) : Roomy (takePayload s cmd pdu) 0 := by
  have hsz := hs.size
  refine ⟨?_, ?_, ?_⟩
  · intro w hw
    rcases mem_append.1 hw with hold | hnew
    · exact hs.inside w hold
    · obtain rfl := mem_singleton.1 hnew
      simp only [PayloadWrite.Inside, hsz]
      omega
  · simp only [FioSsd.takePayload]
    omega
  · simp only [FioSsd.takePayload]
    by_cases hfr : s.first = true
    · rw [if_pos hfr, hgr hfr]
      omega
    · rw [if_neg hfr]
      have hle := h (Bool.eq_false_iff.2 hfr)
      have hadd : (s.cmdret.pduLen + cmd.pduLen).toNat ≤
          s.cmdret.pduLen.toNat + cmd.pduLen.toNat := by
        rw [BitVec.toNat_add]
        exact mod_le _ _
      simp only
      omega

lemma Roomy.finish (h : Roomy s n) (rest : List UInt8) :
    ∀ w ∈ (recvFinish s rest).writes, w.Inside := by
  have hsz := h.size
  have hlen := h.len
  intro w hw
  simp only [recvFinish] at hw
  split_ifs at hw
  · rcases mem_append.1 hw with hold | hnew
    · exact h.inside w hold
    · obtain rfl := mem_singleton.1 hnew
      simp only [PayloadWrite.Inside]
      omega
  · exact h.inside w hw

lemma growFor_first (s : RecvState) (cmd : NetHeader) : (growFor s cmd).first = s.first := by
  unfold growFor
  split_ifs <;> rfl

lemma growFor_pduLen (cmd : NetHeader) (h : s.first = true) : (growFor s cmd).cmdret = cmd := by
  rw [growFor, if_pos h]

lemma growFor_later (cmd : NetHeader) (h : s.first = false) :
    growFor s cmd = { s with cmdSize := s.cmdSize + cmd.pduLen.toNat } := by
  rw [growFor, if_neg (by simp [h])]

variable (crc : List UInt8 → Word 2) (b b' : ByteOrder)

lemma recvLoop_inside (n : Nat) (s : RecvState) (stream : List UInt8) (hn : stream.length = n)
    (h : LoopHead s) : ∀ w ∈ (recvLoop crc b s stream).writes, w.Inside := by
  induction n using Nat.strong_induction_on generalizing s stream with
  | _ n ih =>
    rw [recvLoop]
    by_cases hlen : stream.length < netHeaderSize
    · rw [dif_pos hlen]
      exact h.inside
    rw [dif_neg hlen]
    cases verifyConvertCmd crc b (stream.take netHeaderSize) with
    | none => exact h.inside
    | some cmd =>
      have hgr := h.growFor cmd
      simp only
      by_cases hop : s.first = false ∧ (growFor s cmd).cmdret.opcode ≠ cmd.opcode
      · rw [if_pos hop]
        exact hgr.inside
      rw [if_neg hop]
      by_cases h0 : cmd.pduLen = 0
      · rw [if_pos h0]
        exact hgr.finish _
      rw [if_neg h0]
      -- the payload goes where the frame's header has made room
      have htk : Roomy (takePayload (growFor s cmd) cmd
          ((stream.drop netHeaderSize).take cmd.pduLen.toNat)) 0 := by
        refine hgr.takePayload ?_ ?_ (length_take_le _ _)
        · intro hfr
          rw [growFor_pduLen cmd (growFor_first s cmd ▸ hfr)]
        · intro hlat
          rw [growFor_first] at hlat
          rcases h with ⟨hfr, -⟩ | ⟨-, hrm⟩
          · simp [hlat] at hfr
          · rw [growFor_later cmd hlat]
            exact hrm.len
      split_ifs
      · exact htk.inside
      · exact htk.inside
      · refine ih _ ?_ _ _ rfl (.inr ⟨rfl, htk⟩)
        simp only [length_drop, netHeaderSize] at hlen ⊢
        omega
      · exact htk.finish _

lemma fioNetRecvCmd_inside (stream : List UInt8) :
    ∀ w ∈ (fioNetRecvCmd crc b stream).writes, w.Inside :=
  recvLoop_inside crc b _ _ _ rfl (.inl ⟨rfl, rfl, by simp⟩)

@[simp] lemma length_putLe (x : Word k) : (putLe b x).length = k := by
  rw [putLe, ByteOrder.store_le, length_leBytes]

@[simp] lemma length_frameHead (opcode : Word 2) (pdu : List UInt8) (tag : Word 8) (more : Bool) :
    (frameHead b opcode pdu tag more).length = 20 := by
  simp [frameHead]

@[simp] lemma length_frameHeader (opcode : Word 2) (pdu : List UInt8) (tag : Word 8) (more : Bool)
    : (frameHeader crc b opcode pdu tag more).length = netHeaderSize := by
  simp [frameHeader, netHeaderSize]

def sentHeader (opcode : Word 2) (pdu : List UInt8) (tag : Word 8) (more : Bool) : NetHeader :=
  { version := fioServerVer, opcode := opcode, flags := if more then fioNetCmdFMore else 0
    tag := tag, pduLen := BitVec.ofNat _ pdu.length
    cmdCrc16 := crc (frameHead b opcode pdu tag more)
    pduCrc16 := if pdu.length ≠ 0 then crc pdu else 0 }

lemma drop_add_of_drop (h : xs.drop m = ys ++ zs) (hn : ys.length = n) : xs.drop (m + n) = zs := by
  rw [← drop_drop, h, drop_left' hn]

lemma take_of_drop (h : xs.drop m = ys ++ zs) (hn : ys.length = n) : (xs.drop m).take n = ys := by
  rw [h, take_left' hn]

section

variable (opcode : Word 2) (tag : Word 8) (more : Bool) (h : pdu.length ≤ fioServerMaxPdu)

include h

lemma verifyConvertCmd_sent :
    verifyConvertCmd crc b' (frameHeader crc b opcode pdu tag more) =
      some (sentHeader crc b opcode pdu tag more) := by
  have hlen : (BitVec.ofNat 32 pdu.length).toNat = pdu.length := by
    rw [BitVec.toNat_ofNat, mod_eq_of_lt]
    exact lt_of_le_of_lt h (by decide)
  -- the header field by field
  have h0 : frameHeader crc b opcode pdu tag more = putLe b fioServerVer ++ (putLe b opcode ++
      (putLe b (if more then fioNetCmdFMore else (0 : Word 4)) ++ (putLe b tag ++
        (putLe b (BitVec.ofNat _ pdu.length : Word 4) ++
          (putLe b (crc (frameHead b opcode pdu tag more)) ++
            putLe b (if pdu.length ≠ 0 then crc pdu else (0 : Word 2))))))) := by
    simp [frameHeader, frameHead]
  have h20 : (frameHeader crc b opcode pdu tag more).take 20 = frameHead b opcode pdu tag more := by
    rw [frameHeader, take_left' (length_frameHead b opcode pdu tag more)]
  have d0 : (frameHeader crc b opcode pdu tag more).drop 0 = _ := h0
  have d2 := drop_add_of_drop d0 (length_putLe b fioServerVer)
  have d4 := drop_add_of_drop d2 (length_putLe b opcode)
  have d8 := drop_add_of_drop d4 (length_putLe b _)
  have d16 := drop_add_of_drop d8 (length_putLe b tag)
  have d20 := drop_add_of_drop d16 (length_putLe b _)
  have d22 := drop_add_of_drop d20 (length_putLe b _)
  have t0 : (frameHeader crc b opcode pdu tag more).take 2 = putLe b fioServerVer :=
    take_of_drop d0 (length_putLe b _)
  have t2 := take_of_drop d2 (length_putLe b _)
  have t4 := take_of_drop d4 (length_putLe b _)
  have t8 := take_of_drop d8 (length_putLe b _)
  have t16 := take_of_drop d16 (length_putLe b _)
  have t20 := take_of_drop d20 (length_putLe b _)
  have t22 : ((frameHeader crc b opcode pdu tag more).drop 22).take 2 =
      putLe b (if pdu.length ≠ 0 then crc pdu else (0 : Word 2)) := by
    rw [show ((frameHeader crc b opcode pdu tag more).drop 22) = _ from d22]
    exact take_of_length_le (by simp)
  simp only [verifyConvertCmd, t0, t2, t4, t8, t16, t20, t22, h20, getLe_putLe, ne_eq,
    not_true_eq_false, if_false]
  rw [if_neg]
  · rfl
  · exact not_lt.2 (le_of_eq_of_le hlen h)

lemma sentHeader_pduLen :
    (sentHeader crc b opcode pdu tag more).pduLen.toNat = pdu.length := by
  have hlt : pdu.length < 2 ^ 32 := lt_of_le_of_lt h (by decide)
  exact (BitVec.toNat_ofNat ..).trans (mod_eq_of_lt hlt)

end

lemma sentHeader_flags (opcode : Word 2) (pdu : List UInt8) (tag : Word 8) (more : Bool) :
    (sentHeader crc b opcode pdu tag more).flags &&& ~~~fioNetCmdFMore = 0 ∧
      ((sentHeader crc b opcode pdu tag more).flags &&& fioNetCmdFMore ≠ 0 ↔ more = true) := by
  have hno : (0 : Word 4) &&& ~~~fioNetCmdFMore = 0 ∧ (0 : Word 4) &&& fioNetCmdFMore = 0 := by
    decide
  have hmr : fioNetCmdFMore &&& ~~~fioNetCmdFMore = 0 ∧ fioNetCmdFMore &&& fioNetCmdFMore ≠ 0 := by
    decide
  cases more with
  | false => exact ⟨hno.1, by simp [sentHeader]⟩
  | true => exact ⟨hmr.1, by simpa [sentHeader] using hmr.2⟩

def keptPayload (payload : List UInt8) : List UInt8 := payload.take (payload.length % 2 ^ 32)

/-- The bytes `done` of a command have been collected. -/
structure Collected (s : RecvState) (opcode : Word 2) (tag : Word 8) (done : List UInt8) : Prop where
  start : s.first = true → done = []
  header : s.first = false → s.cmdret.opcode = opcode ∧ s.cmdret.tag = tag ∧
    s.cmdret.flags &&& ~~~fioNetCmdFMore = 0 ∧ s.cmdret.pduLen = BitVec.ofNat _ done.length
  offset : s.pduOffset = done.length
  bytes : s.payload.load 0 done.length = done

lemma load_prefix {m : Mem} {bs : List UInt8} (h : m.load 0 n = bs) (hk : k ≤ n) :
    m.load 0 k = bs.take k := by
  have hcut := m.load_add 0 k (n - k)
  rw [Nat.add_sub_cancel' hk, h] at hcut
  rw [hcut, take_left' (Mem.length_load m 0 k)]

section

variable (hs : Collected s opcode tag done)

include hs

lemma Collected.finish (h : s.first = false) (rest : List UInt8) :
    (recvFinish s rest).cmd = some ⟨opcode, keptPayload done, tag, 0⟩ := by
  obtain ⟨hop, htag, hfl, hlen⟩ := hs.header h
  have hnat : s.cmdret.pduLen.toNat = done.length % 2 ^ 32 := by
    rw [hlen]
    exact BitVec.toNat_ofNat ..
  have hkp : s.payload.load 0 s.cmdret.pduLen.toNat = keptPayload done := by
    rw [hnat]
    exact load_prefix hs.bytes (mod_le _ _)
  -- the terminator is stored behind what is returned
  have htr : (s.payload.store s.cmdret.pduLen.toNat [0]).load 0 s.cmdret.pduLen.toNat =
      keptPayload done := by
    rw [Mem.load_store_disjoint _ (.inl (by omega)), hkp]
  simp only [recvFinish, hop, htag, hfl]
  split_ifs
  · rw [htr]
  · rw [hkp]

lemma Collected.takePayload (pdu : List UInt8) (more : Bool) (hpdu : pdu.length ≤ fioServerMaxPdu) :
    Collected (takePayload (growFor s (sentHeader crc b opcode pdu tag more))
      (sentHeader crc b opcode pdu tag more) pdu) opcode tag (done ++ pdu) := by
  have hlen := sentHeader_pduLen crc b opcode tag more hpdu
  have hgr : (growFor s (sentHeader crc b opcode pdu tag more)).pduOffset = done.length ∧
      (growFor s (sentHeader crc b opcode pdu tag more)).payload = s.payload := by
    unfold growFor
    split_ifs <;> exact ⟨hs.offset, rfl⟩
  refine ⟨fun h => absurd h (by simp [FioSsd.takePayload]), fun _ => ?_, ?_, ?_⟩
  · simp only [FioSsd.takePayload, growFor_first]
    by_cases hfr : s.first = true
    · rw [if_pos hfr, growFor_pduLen _ hfr, hs.start hfr, nil_append]
      refine ⟨rfl, rfl, ?_, rfl⟩
      exact (sentHeader_flags crc b opcode pdu tag more).1
    · have hlat := Bool.eq_false_iff.2 hfr
      obtain ⟨hop, htag, hfl, hcnt⟩ := hs.header hlat
      rw [if_neg hfr, growFor_later _ hlat]
      refine ⟨hop, htag, hfl, ?_⟩
      simp only [hcnt, sentHeader, length_append]
      exact (BitVec.ofNat_add ..).symm
  · simp [FioSsd.takePayload, hgr.1, hlen]
  · simp only [FioSsd.takePayload, hgr.1, hgr.2, length_append]
    rw [Mem.load_add, Mem.load_store_disjoint _ (.inl (by omega)), hs.bytes, zero_add,
      Mem.load_store_same _ _ _ rfl]

lemma recvLoop_frame (more : Bool) (hpdu : pdu.length ≤ fioServerMaxPdu) (hne : pdu ≠ [])
    (rest : List UInt8) :
    recvLoop crc b' s (frameHeader crc b opcode pdu tag more ++ (pdu ++ rest)) =
      let s' := takePayload (growFor s (sentHeader crc b opcode pdu tag more))
        (sentHeader crc b opcode pdu tag more) pdu
      if more then recvLoop crc b' s' rest else recvFinish s' rest := by
  have hlen := sentHeader_pduLen crc b opcode tag more hpdu
  have hpos : pdu.length ≠ 0 := fun h => hne (length_eq_zero_iff.1 h)
  have h0 : (sentHeader crc b opcode pdu tag more).pduLen ≠ 0 := by
    intro h
    rw [h] at hlen
    exact hpos hlen.symm
  have hop : ¬ (s.first = false ∧ (growFor s (sentHeader crc b opcode pdu tag more)).cmdret.opcode ≠
      (sentHeader crc b opcode pdu tag more).opcode) := by
    rintro ⟨hlat, hdf⟩
    rw [growFor_later _ hlat] at hdf
    exact hdf (hs.header hlat).1
  have hcrc : crc pdu = (sentHeader crc b opcode pdu tag more).pduCrc16 := by
    simp [sentHeader, hpos]
  rw [recvLoop, dif_neg (by simp), take_left' (length_frameHeader crc b opcode pdu tag more),
    drop_left' (length_frameHeader crc b opcode pdu tag more),
    verifyConvertCmd_sent crc b b' opcode tag more hpdu]
  simp only [if_neg hop, if_neg h0, hlen, take_left, drop_left, lt_irrefl, if_false, ← hcrc,
    not_true_eq_false, ne_eq]
  have hfl := (sentHeader_flags crc b opcode pdu tag more).2
  by_cases hmr : more = true
  · rw [if_pos hmr, if_pos (hfl.2 hmr)]
  · rw [if_neg hmr, if_neg (fun h => hmr (hfl.1 h))]

end

lemma recvLoop_empty (h : s.first = true) (opcode : Word 2) (tag : Word 8) (rest : List UInt8)
    : (recvLoop crc b' s (frameHeader crc b opcode [] tag false ++ rest)).cmd =
        some ⟨opcode, [], tag, 0⟩ ∧
      (recvLoop crc b' s (frameHeader crc b opcode [] tag false ++ rest)).rest = rest := by
  have hgr := growFor_pduLen (sentHeader crc b opcode [] tag false) h
  have hfl := (sentHeader_flags crc b opcode [] tag false).1
  rw [recvLoop, dif_neg (by simp), take_left' (length_frameHeader crc b opcode [] tag false),
    drop_left' (length_frameHeader crc b opcode [] tag false),
    verifyConvertCmd_sent crc b b' opcode tag false (zero_le _)]
  have h0 : (sentHeader crc b opcode [] tag false).pduLen = 0 := rfl
  simp only [hgr, ne_eq, not_true_eq_false, and_false, if_false, h0, if_true]
  simp only [recvFinish, hgr, hfl, h0, and_true]
  rfl

lemma recvLoop_sent (n : Nat) (hs : Collected s opcode tag done) (buf : List UInt8)
    (hn : buf.length = n) (h : buf ≠ [] ∨ s.first) (rest : List UInt8) :
    (recvLoop crc b' s (fioNetSendCmd crc b opcode buf tag ++ rest)).cmd =
        some ⟨opcode, keptPayload (done ++ buf), tag, 0⟩ ∧
      (recvLoop crc b' s (fioNetSendCmd crc b opcode buf tag ++ rest)).rest = rest := by
  induction n using Nat.strong_induction_on generalizing s done buf with
  | _ n ih =>
    rw [fioNetSendCmd]
    by_cases hemp : buf = []
    · -- a command without payload is one frame
      subst hemp
      have hfr := h.resolve_left (by simp)
      have hdn := hs.start hfr
      subst hdn
      have hone := recvLoop_empty crc b b' hfr opcode tag rest
      simpa [keptPayload] using hone
    · have htk : (buf.take (min buf.length fioServerMaxPdu)).length ≤ fioServerMaxPdu := by
        simp
      have hne : buf.take (min buf.length fioServerMaxPdu) ≠ [] := by
        have hpos := length_pos_iff.2 hemp
        rw [← length_pos_iff, length_take, fioServerMaxPdu]
        omega
      simp only [append_assoc]
      rw [recvLoop_frame crc b b' hs _ htk hne]
      have hnx := hs.takePayload crc b (buf.take (min buf.length fioServerMaxPdu))
        (decide (min buf.length fioServerMaxPdu < buf.length)) htk
      by_cases hmr : fioServerMaxPdu < buf.length
      · have hmin : min buf.length fioServerMaxPdu = fioServerMaxPdu := by omega
        have hlat := ih (buf.drop fioServerMaxPdu).length
          (by rw [length_drop]; unfold fioServerMaxPdu at *; omega) hnx
          (buf.drop fioServerMaxPdu) rfl (.inl (by
            rw [← length_pos_iff, length_drop]
            omega))
        simp only [hmin, hmr, decide_true, dif_pos, if_true] at hlat ⊢
        rw [append_assoc, take_append_drop] at hlat
        exact hlat
      · have hmin : min buf.length fioServerMaxPdu = buf.length := by omega
        simp only [hmin, lt_irrefl, decide_false, take_length, hmr, dif_neg, not_false_eq_true,
          nil_append, Bool.false_eq_true, if_false] at hnx ⊢
        exact ⟨hnx.finish rfl rest, rfl⟩

lemma fioNetRecvCmd_sent (opcode : Word 2) (buf : List UInt8) (tag : Word 8) (rest : List UInt8) :
    (fioNetRecvCmd crc b' (fioNetSendCmd crc b opcode buf tag ++ rest)).cmd =
        some ⟨opcode, keptPayload buf, tag, 0⟩ ∧
      (fioNetRecvCmd crc b' (fioNetSendCmd crc b opcode buf tag ++ rest)).rest = rest := by
  have hst : Collected { first := true, cmdret := ⟨0, 0, 0, 0, 0, 0, 0⟩, payload := fun _ => 0
                         cmdSize := 0, pduOffset := 0, writes := [] } opcode tag [] :=
    ⟨fun _ => rfl, nofun, rfl, rfl⟩
  exact recvLoop_sent crc b b' _ hst buf rfl (.inr rfl) rest

structure SentCmd where
  opcode : Word 2
  payload : List UInt8
  tag : Word 8
  deriving DecidableEq, Repr

def SentCmd.asSent (c : SentCmd) : NetCmd := ⟨c.opcode, c.payload, c.tag, 0⟩

variable (cmds : List SentCmd)

def sendCmds : List UInt8 :=
  (cmds.map fun c => fioNetSendCmd crc b c.opcode c.payload c.tag).flatten

lemma recvCmds_sendCmds :
    recvCmds crc b' cmds.length (sendCmds crc b cmds) =
      cmds.map fun c => ⟨c.opcode, keptPayload c.payload, c.tag, 0⟩ := by
  induction cmds with
  | nil => rfl
  | cons c cmds ih =>
    obtain ⟨hcmd, hrs⟩ := fioNetRecvCmd_sent crc b b' c.opcode c.payload c.tag (sendCmds crc b cmds)
    have hsn : sendCmds crc b (c :: cmds) =
        fioNetSendCmd crc b c.opcode c.payload c.tag ++ sendCmds crc b cmds := by
      simp [sendCmds]
    rw [hsn, length_cons, recvCmds, hcmd]
    simp [hrs, ih]

lemma keptPayload_eq_iff (payload : List UInt8) :
    keptPayload payload = payload ↔ payload.length < 2 ^ 32 := by
  constructor
  · intro hkp
    have hlen := congrArg List.length hkp
    rw [keptPayload, length_take] at hlen
    have hmod := mod_lt payload.length (show 0 < 2 ^ 32 by decide)
    omega
  · intro hlt
    rw [keptPayload, mod_eq_of_lt hlt, take_length]

/-- **Network commands survive fragmentation exactly when every payload is shorter than
    `2 ^ 32` bytes**; stores of payload stay inside the allocation for every stream. -/
theorem netCmds_roundTrip_iff :
    (recvCmds crc b' cmds.length (sendCmds crc b cmds) = cmds.map SentCmd.asSent ∧
        ∀ stream, ∀ w ∈ (fioNetRecvCmd crc b' stream).writes, w.Inside) ↔
      ∀ c ∈ cmds, c.payload.length < 2 ^ 32 := by
  rw [recvCmds_sendCmds, and_iff_left (fioNetRecvCmd_inside crc b'), map_inj_left]
  refine forall₂_congr fun c _ => ?_
  rw [← keptPayload_eq_iff]
  simp [SentCmd.asSent]

/-- A job file of `2 ^ 32` bytes arrives as one without any: its length has wrapped to 0. -/
theorem netCmds_lose_length :
    recvCmds (fun _ => 0) .little 1 (sendCmds (fun _ => 0) .little
        [⟨fioNetCmdJob, List.replicate (2 ^ 32) 10, 0⟩]) = [⟨fioNetCmdJob, [], 0, 0⟩] := by
  have hls : keptPayload (List.replicate (2 ^ 32) 10) = [] := by
    rw [keptPayload, length_replicate, Nat.mod_self, take_zero]
  have hrc := recvCmds_sendCmds (fun _ => 0) .little .little
    [⟨fioNetCmdJob, List.replicate (2 ^ 32) 10, 0⟩]
  simp only [map_cons, map_nil, hls] at hrc
  exact hrc

end FioSsd
