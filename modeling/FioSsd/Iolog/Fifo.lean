import FioSsd.Iolog.Blktrace
import Mathlib.Data.BitVec
import Mathlib.Data.List.GetD

/-! # Reading a trace through a ring buffer

`load_blktrace` (`blktrace.c`) takes the records of a trace out of a ring buffer (`fifo.c`) that it fills
from the file. -/

namespace FioSsd

open List

/-- `struct fifo`, with a buffer of `TRACE_FIFO_SIZE` bytes. -/
structure Fifo where
  buffer : Mem
  (inn out : BitVec 32)

namespace Fifo

variable (f : Fifo)

def len : Nat := (f.inn - f.out).toNat

def room : Nat := (8192 - f.inn + f.out).toNat

/-- `fifo_put`: up to the end of the buffer, and the rest from its start on. -/
def put (data : List UInt8) : Fifo :=
  let kept := data.take f.room
  let start := f.inn.toNat % 8192
  let l := min kept.length (8192 - start)
  { f with buffer := (f.buffer.store start (kept.take l)).store 0 (kept.drop l)
           inn := f.inn + .ofNat 32 kept.length }

/-- `fifo_get`. -/
def get (n : Nat) : List UInt8 × Fifo :=
  let n := min n f.len
  let start := f.out.toNat % 8192
  let l := min n (8192 - start)
  (f.buffer.load start l ++ f.buffer.load 0 (n - l),
    if f.inn = f.out + .ofNat 32 n then { f with inn := 0, out := 0 }
    else { f with out := f.out + .ofNat 32 n })

/-- The bytes in the queue, the oldest first. -/
def contents : List UInt8 := (range f.len).map fun k => f.buffer ((f.out.toNat + k) % 8192)

@[simp] lemma length_contents : f.contents.length = f.len := by
  rw [contents, length_map, length_range]

variable {f}

lemma room_eq (h : f.len ≤ 8192) : f.room = 8192 - f.len := by
  unfold room len at *
  bv_omega

lemma inn_mod (f : Fifo) : f.inn.toNat % 8192 = (f.out.toNat + f.len) % 8192 := by
  unfold len
  bv_omega

/-- `fifo_put` appends, as long as there is room. -/
lemma contents_put {data : List UInt8} (h : f.len ≤ 8192) (hrm : data.length ≤ 8192 - f.len) :
    (f.put data).contents = f.contents ++ data ∧ (f.put data).len ≤ 8192 := by
  have hkp : data.take f.room = data := take_of_length_le (by rw [room_eq h]; exact hrm)
  have hlen : (f.put data).len = f.len + data.length := by
    simp only [put, hkp]
    unfold len at *
    dsimp only
    bv_omega
  refine ⟨?_, by omega⟩
  apply ext_getElem
  · rw [length_append, length_contents, length_contents, hlen]
  intro k hk hk'
  have hst := f.inn_mod
  generalize hs : f.inn.toNat % 8192 = start at hst
  have hbuf : (f.put data).buffer =
      (f.buffer.store start (data.take (min data.length (8192 - start)))).store 0
        (data.drop (min data.length (8192 - start))) := by simp only [put, hkp, hs]
  rw [length_contents, hlen] at hk
  simp only [contents, getElem_map, getElem_range, getElem_append, length_map, length_range, hbuf]
  change Mem.store _ _ _ ((f.out.toNat + k) % 8192) = _
  split_ifs with hold
  · rw [Mem.store_of_not_mem _ (by rw [length_drop]; omega),
      Mem.store_of_not_mem _ (by rw [length_take]; omega)]
  · by_cases hj : k - f.len < 8192 - start
    · have hp : (f.out.toNat + k) % 8192 = start + (k - f.len) := by omega
      rw [Mem.store_of_not_mem _ (by rw [length_drop]; omega),
        Mem.store_of_mem _ (by omega) (by rw [length_take]; omega), hp, Nat.add_sub_cancel_left,
        getD_eq_getElem _ _ (by rw [length_take]; omega), getElem_take]
    · have hp : (f.out.toNat + k) % 8192 = k - f.len - (8192 - start) := by omega
      rw [Mem.store_of_mem _ (Nat.zero_le _) (by rw [length_drop]; omega), hp, Nat.sub_zero,
        getD_eq_getElem _ _ (by rw [length_drop]; omega), getElem_drop]
      congr 1
      omega

/-- `fifo_get` takes from the front. -/
lemma contents_get (h : f.len ≤ 8192) (n : Nat) : (f.get n).1 = f.contents.take n ∧
    (f.get n).2.contents = f.contents.drop n ∧ (f.get n).2.len ≤ 8192 := by
  have hlen : (f.get n).2.len = f.len - n := by
    unfold get
    dsimp only
    split_ifs with hemp
    · unfold len at *
      dsimp only
      bv_omega
    · unfold len at *
      dsimp only
      bv_omega
  refine ⟨?_, ?_, by omega⟩
  · apply ext_getElem
    · simp [get, Mem.load]
    intro k hk hk'
    rw [length_take, length_contents] at hk'
    simp only [get, contents, Mem.load, getElem_append, getElem_map, getElem_range, length_map,
      length_range, getElem_take]
    split_ifs with hfr
    · congr 1
      omega
    · congr 1
      omega
  · apply ext_getElem
    · simp [hlen]
    intro k hk hk'
    rw [length_contents, hlen] at hk
    have hout : (f.get n).2.buffer = f.buffer ∧
        (f.get n).2.out.toNat % 8192 = (f.out.toNat + n) % 8192 := by
      unfold get
      dsimp only
      split_ifs with hemp
      · unfold len at *
        refine ⟨rfl, ?_⟩
        bv_omega
      · unfold len at *
        refine ⟨rfl, ?_⟩
        dsimp only
        bv_omega
    simp only [contents, getElem_map, getElem_range, getElem_drop, hout.1]
    congr 1
    omega

inductive Call
  | put (data : List UInt8)
  | get (n : Nat)

/-- The bytes that each call moves. -/
def run : List Call → Fifo → List (List UInt8)
  | [], _ => []
  | .put data :: calls, f => data.take f.room :: run calls (f.put data)
  | .get n :: calls, f => (f.get n).1 :: run calls (f.get n).2

/-- The same calls on a queue of at most 8192 bytes. -/
def queueRun : List Call → List UInt8 → List (List UInt8)
  | [], _ => []
  | .put data :: calls, q =>
    data.take (8192 - q.length) :: queueRun calls (q ++ data.take (8192 - q.length))
  | .get n :: calls, q => q.take n :: queueRun calls (q.drop n)

lemma run_eq (h : f.len ≤ 8192) (calls : List Call) : run calls f = queueRun calls f.contents := by
  induction calls generalizing f with
  | nil => rfl
  | cons call calls ih =>
    cases call with
    | put data =>
      have hput : f.put data = f.put (data.take f.room) := by
        simp [put, take_take]
      obtain ⟨hc, hlen⟩ := @contents_put f (data.take f.room) h (by simp [room_eq h])
      rw [run, queueRun, hput, ih hlen, hc, length_contents, room_eq h]
    | get n =>
      obtain ⟨hget, hc, hlen⟩ := contents_get h n
      rw [run, queueRun, ih hlen, hget, hc]

/-- **The ring buffer is a queue**: in every sequence of calls, also when its counters wrap. -/
theorem run_start (buffer : Mem) (calls : List Call) :
    run calls ⟨buffer, 0, 0⟩ = queueRun calls [] := by
  rw [run_eq (by simp [len])]
  simp [contents, len]

end Fifo

/-- `refill_fifo`, with what is left of the file. -/
def refillFifo (s : Fifo × List UInt8) : Fifo × List UInt8 :=
  let total := min 8192 s.1.room
  (s.1.put (s.2.take total), s.2.drop total)

def traceFifoGet (n : Nat) (s : Fifo × List UInt8) : List UInt8 × Fifo × List UInt8 :=
  let s := if s.1.len < n then refillFifo s else s
  ((s.1.get n).1, (s.1.get n).2, s.2)

def discardPdu (n : Nat) (s : Fifo × List UInt8) : List UInt8 × Fifo × List UInt8 :=
  if n = 0 then ([], s) else traceFifoGet n s

variable (t : List UInt8)

/-- `pdu_len`, the last field of a `struct blk_io_trace`. -/
def pduLen : Nat := leNat (t.drop 46)

/-- `BLK_IO_TRACE_MAGIC` with `BLK_IO_TRACE_VERSION`. -/
def magicOk : Bool := leNat (t.take 4) == 0x65617407

def traceOf : BlkIoTrace where
  time := .ofNat 64 (leNat ((t.drop 8).take 8))
  sector := .ofNat 64 (leNat ((t.drop 16).take 8))
  bytes := .ofNat 32 (leNat ((t.drop 24).take 4))
  action := .ofNat 32 (leNat ((t.drop 28).take 4))
  device := .ofNat 32 (leNat ((t.drop 36).take 4))
  cpu := .ofNat 32 (leNat ((t.drop 40).take 4))

/-- The loop of `load_blktrace`: the records it handles, or none if it ends with an error. -/
def loadRecords : Nat → Fifo × List UInt8 → Option (List BlkIoTrace)
  | 0, _ => none
  | fuel + 1, s =>
    let (t, s) := traceFifoGet 48 s
    if t.length < 48 then some []
    else if magicOk t = false then none
    else
      let (pdu, s) := discardPdu (pduLen t) s
      if pdu.length ≠ pduLen t then none else (loadRecords fuel s).map (traceOf t :: ·)

/-- A record as it stands in the file. -/
structure TraceRecord where
  (header pdu : List UInt8)
  header_len : header.length = 48
  header_ok : magicOk header = true
  pdu_len : pdu.length = pduLen header

/-- What is still to be read. -/
def stream (s : Fifo × List UInt8) : List UInt8 := s.1.contents ++ s.2

variable (buffer : Mem)

lemma len_start : (Fifo.mk buffer 0 0).len ≤ 8192 := by
  simp [Fifo.len]

lemma stream_start (rest : List UInt8) : stream (⟨buffer, 0, 0⟩, rest) = rest := by
  simp [stream, Fifo.contents, Fifo.len]

lemma take_drop_append {n m : Nat} (xs : List UInt8) :
    (xs.take m).drop n ++ xs.drop m = xs.drop (min n m) := by
  rcases le_total n m with h | h
  · have hdrop : xs.drop m = (xs.drop n).drop (m - n) := by rw [drop_drop, Nat.add_sub_cancel' h]
    rw [min_eq_left h, drop_take, hdrop, take_append_drop]
  · rw [min_eq_right h, drop_of_length_le (by rw [length_take]; omega), nil_append]

variable {s : Fifo × List UInt8}

/-- Requests for at most the capacity are served from the stream. -/
lemma traceFifoGet_spec (h : s.1.len ≤ 8192) (n : Nat) :
    ∃ s', traceFifoGet n s = ((stream s).take (min n 8192), s') ∧
      stream s' = (stream s).drop (min n 8192) ∧ s'.1.len ≤ 8192 := by
  obtain ⟨f, rest⟩ := s
  dsimp only at h
  unfold traceFifoGet refillFifo stream
  have hrm : min 8192 f.room = 8192 - f.len := by
    rw [f.room_eq h]
    omega
  have hc : f.contents.length ≤ 8192 := by rwa [f.length_contents]
  by_cases hn : f.len < n
  · obtain ⟨hput, hlen⟩ := @Fifo.contents_put f (rest.take (8192 - f.len)) h (by simp)
    have hfl : f.contents ++ rest.take (8192 - f.len) = (f.contents ++ rest).take 8192 := by
      rw [take_append, f.length_contents, take_of_length_le hc]
    have hlf : rest.drop (8192 - f.len) = (f.contents ++ rest).drop 8192 := by
      rw [drop_append, f.length_contents, drop_of_length_le hc, nil_append]
    obtain ⟨hget, hdrop, hle⟩ := Fifo.contents_get hlen n
    simp only [hn, if_true, hrm]
    refine ⟨_, Prod.ext ?_ rfl, ?_, hle⟩
    · rw [hget, hput, hfl, take_take]
    · dsimp only
      rw [hdrop, hput, hfl, hlf, take_drop_append]
  · obtain ⟨hget, hdrop, hle⟩ := Fifo.contents_get h n
    have hlen := f.length_contents
    have hmin : min n 8192 = n := by omega
    rw [hmin]
    simp only [hn, if_false]
    refine ⟨_, Prod.ext ?_ rfl, ?_, hle⟩
    · rw [hget, take_append_of_le_length (by omega)]
    · dsimp only
      rw [hdrop, drop_append_of_le_length (by omega)]

lemma discardPdu_spec {pdu rest : List UInt8} (h : s.1.len ≤ 8192)
    (hs : stream s = pdu ++ rest) (hpdu : pdu.length ≤ 8192) :
    ∃ s', discardPdu pdu.length s = (pdu, s') ∧ stream s' = rest ∧ s'.1.len ≤ 8192 := by
  unfold discardPdu
  split_ifs with h0
  · have hnil := length_eq_zero_iff.1 h0
    exact ⟨s, by rw [hnil], by rw [hs, hnil, nil_append], h⟩
  · obtain ⟨s', hget, hs', h'⟩ := traceFifoGet_spec h pdu.length
    rw [hs, min_eq_left hpdu] at hget hs'
    rw [take_left] at hget
    rw [drop_left] at hs'
    exact ⟨s', hget, hs', h'⟩

lemma discardPdu_short {n : Nat} (h : s.1.len ≤ 8192) (hn : 8192 < n) :
    (discardPdu n s).1.length ≠ n := by
  obtain ⟨s', hget, -⟩ := traceFifoGet_spec h n
  rw [discardPdu, if_neg (by omega), hget, length_take]
  omega

lemma loadRecords_eq {records : List TraceRecord} (h : s.1.len ≤ 8192)
    (hs : stream s = records.flatMap fun r => r.header ++ r.pdu) :
    loadRecords (records.length + 1) s =
      if ∀ r ∈ records, r.pdu.length ≤ 8192 then some (records.map (traceOf ·.header)) else none := by
  induction records generalizing s with
  | nil =>
    obtain ⟨s', hget, -⟩ := traceFifoGet_spec h 48
    rw [hs] at hget
    simp [loadRecords, hget]
  | cons r records ih =>
    obtain ⟨s1, hget, hs1, h1⟩ := traceFifoGet_spec h 48
    rw [hs, flatMap_cons, append_assoc] at hget hs1
    rw [take_left' (by rw [r.header_len]; rfl)] at hget
    rw [drop_left' (by rw [r.header_len]; rfl)] at hs1
    have hlen : ¬r.header.length < 48 := by rw [r.header_len]; decide
    rw [length_cons, loadRecords]
    simp only [hget, hlen, if_false, r.header_ok, Bool.true_eq_false, ← r.pdu_len]
    by_cases hpdu : r.pdu.length ≤ 8192
    · obtain ⟨s2, hdsc, hs2, h2⟩ := discardPdu_spec h1 hs1 hpdu
      rw [hdsc]
      simp only [ne_eq, not_true_eq_false, if_false, ih h2 hs2, forall_mem_cons, hpdu, true_and]
      split_ifs <;> rfl
    · rw [if_pos (discardPdu_short h1 (not_le.1 hpdu)),
        if_neg fun hall => hpdu (hall r mem_cons_self)]

/-- **When a trace is read whatever the buffering**: exactly if no payload is longer than the ring. -/
theorem loadRecords_right_iff (records : List TraceRecord) :
    loadRecords (records.length + 1) (⟨buffer, 0, 0⟩, records.flatMap fun r => r.header ++ r.pdu) =
        some (records.map (traceOf ·.header)) ↔ ∀ r ∈ records, r.pdu.length ≤ 8192 := by
  rw [@loadRecords_eq (_, _) records (len_start buffer) (stream_start _ _)]
  split_ifs with hall
  · exact iff_of_true rfl hall
  · exact iff_of_false (by simp) hall

/-- A record with a payload of one byte more. -/
def longRecord : TraceRecord where
  header := [7, 116, 97, 101] ++ replicate 42 0 ++ [1, 32]
  pdu := replicate 8193 0
  header_len := rfl
  header_ok := rfl
  pdu_len := length_replicate

theorem loadRecords_long_fails : ¬∃ buffer,
    loadRecords 2 (⟨buffer, 0, 0⟩, longRecord.header ++ longRecord.pdu) =
      some [traceOf longRecord.header] := by
  rintro ⟨buffer, hld⟩
  have heq := @loadRecords_eq (⟨buffer, 0, 0⟩, longRecord.header ++ longRecord.pdu) [longRecord]
    (len_start buffer) (by rw [stream_start, flatMap_singleton])
  rw [if_neg fun hall => ?_] at heq
  · cases hld.symm.trans heq
  · have hln := hall longRecord mem_cons_self
    rw [longRecord, length_replicate] at hln
    omega

end FioSsd
