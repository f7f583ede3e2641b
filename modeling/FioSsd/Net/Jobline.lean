import FioSsd.Lib.CString
import FioSsd.Net.Command

/-! # The job command line on the wire -/

namespace FioSsd

variable {args argv : List (List UInt8)} {n : Nat}

open List Mem

variable {arg payload : List UInt8} {fresh : Mem} {offset size : Nat}

def fioNetCmdJobline : Word 2 := 4

/-- `sizeof(struct cmd_line_pdu)` and `sizeof(struct cmd_single_line_pdu)`. -/
def cmdLinePduSize : Nat := 2
@[inherit_doc cmdLinePduSize] def cmdSingleLinePduSize : Nat := 2

variable (arg)

def lineLen : Nat := (arg.length + 1) % 2 ^ 32

def argLenWord : Word 2 := BitVec.ofNat _ (lineLen arg)

def argLen : Nat := (argLenWord arg).toNat

def clientArgc (argv : List (List UInt8)) : Word 2 := BitVec.ofNat _ argv.length

def clientArgs (argv : List (List UInt8)) : List (List UInt8) := argv.take (clientArgc argv).toNat

def cmdLineMem (args : List (List UInt8)) : Nat :=
  (args.map lineLen).sum + (cmdLinePduSize + args.length * cmdSingleLinePduSize)

variable {arg}

section Client

variable (b : ByteOrder)

/-- The loop of `send_client_cmd_line`: for each argument the text, then its length. -/
def storeLines (m : Mem) : Nat → List (List UInt8) → Mem
  | _, [] => m
  | offset, arg :: args =>
    storeLines ((m.store (offset + cmdSingleLinePduSize) (arg ++ [0])).store offset
        (putLe b (argLenWord arg)))
      (offset + (cmdSingleLinePduSize + argLen arg)) args

def cmdLinePdu (fresh : Mem) (argv : List (List UInt8)) : Mem :=
  (storeLines b fresh cmdLinePduSize (clientArgs argv)).store 0 (putLe b (clientArgc argv))

def sendClientCmdLine (fresh : Mem) (argv : List (List UInt8)) : List UInt8 :=
  (cmdLinePdu b fresh argv).load 0 (cmdLineMem (clientArgs argv))

end Client

section Server

variable (b : ByteOrder) (m : Mem)

def cslpLen (offset : Nat) : Nat := (getLe b (m.load offset 2) : Word 2).toNat

/-- The offsets of the records that the loop of `handle_jobline_cmd` visits. -/
def walkLines : Nat → Nat → List Nat
  | 0, _ => []
  | lines + 1, offset =>
    offset :: walkLines lines (offset + (cmdSingleLinePduSize + cslpLen b m offset))

def clpLines : Nat := (getLe b (m.load 0 2) : Word 2).toNat

/-- The records of the payload at address 0, as `handle_jobline_cmd` walks them. -/
def handleJoblineRecords : List Nat := walkLines b m (clpLines b m) cmdLinePduSize

def handleJoblineArgv : List Nat := (handleJoblineRecords b m).map (· + cmdSingleLinePduSize)

end Server

variable {b b' : ByteOrder} {m m' : Mem}

lemma toNat_getLe_load (b : ByteOrder) (m : Mem) (a : Nat) :
    (getLe b (m.load a 2) : Word 2).toNat = leNat (m.load a 2) := by
  rw [getLe, ByteOrder.le_load b (by simp : (m.load a 2).length = 2)]
  exact ByteOrder.toNat_ofNat_leNat (by simp)

lemma putLe_eq_leBytes {k : Nat} (b : ByteOrder) (x : Word k) : putLe b x = leBytes k x.toNat :=
  ByteOrder.store_le b x

section

variable (arg : List UInt8)

lemma argLen_lt : argLen arg < 2 ^ 16 := (argLenWord arg).isLt

lemma argLen_eq_mod : argLen arg = lineLen arg % 2 ^ 16 := BitVec.toNat_ofNat _ _

lemma argLen_eq : argLen arg = (arg.length + 1) % 2 ^ 16 := by
  rw [argLen_eq_mod, lineLen]
  omega

lemma argLen_le_lineLen : argLen arg ≤ lineLen arg := by
  rw [argLen_eq_mod]
  exact Nat.mod_le _ _

end

lemma putLe_argLenWord (b : ByteOrder) (arg : List UInt8) :
    putLe b (argLenWord arg) = leBytes 2 (argLen arg) := putLe_eq_leBytes b _

lemma leNat_leBytes_argLen (arg : List UInt8) : leNat (leBytes 2 (argLen arg)) = argLen arg :=
  leNat_leBytes_of_lt (by have := argLen_lt arg; norm_num at this ⊢; exact this)

lemma storeLines_below {x : Nat} (args : List (List UInt8)) (h : x < offset)
    : storeLines b fresh offset args x = fresh x := by
  induction args generalizing fresh offset with
  | nil => rfl
  | cons arg args ih =>
    rw [storeLines, ih (by omega), store_of_not_mem _ (.inl h),
      store_of_not_mem _ (.inl (by omega))]

def recordsLen (args : List (List UInt8)) : Nat :=
  (args.map fun arg => cmdSingleLinePduSize + argLen arg).sum

lemma recordsLen_le_mem (args : List (List UInt8)) :
    cmdLinePduSize + recordsLen args ≤ cmdLineMem args := by
  induction args with
  | nil => simp [recordsLen, cmdLineMem]
  | cons arg args ih =>
    have hle := argLen_le_lineLen arg
    simp [recordsLen, cmdLineMem, sum_cons, cmdSingleLinePduSize, cmdLinePduSize] at ih ⊢
    omega

def Holds (b : ByteOrder) (m : Mem) (size offset : Nat) (args : List (List UInt8)) : Prop :=
  ∃ fresh : Mem, ∀ x, offset ≤ x → x < size → m x = storeLines b fresh offset args x

section

variable (h : Holds b m size offset (arg :: args))

include h

lemma Holds.tail :
    Holds b m size (offset + (cmdSingleLinePduSize + argLen arg)) args := by
  obtain ⟨fresh, hm⟩ := h
  refine ⟨(fresh.store (offset + cmdSingleLinePduSize) (arg ++ [0])).store offset
    (putLe b (argLenWord arg)), ?_⟩
  intro x hlo hhi
  exact hm x (by omega) hhi

lemma Holds.header (hsz : offset + 2 ≤ size) :
    m.load offset 2 = leBytes 2 (argLen arg) := by
  obtain ⟨fresh, hm⟩ := h
  rw [← putLe_argLenWord b, ← load_store_same
    (fresh.store (offset + cmdSingleLinePduSize) (arg ++ [0])) offset _ (length_putLe b _)]
  apply load_congr
  intro i hi
  rw [hm _ (by omega) (by omega), storeLines, storeLines_below args
    (by simp only [cmdSingleLinePduSize]; omega)]

lemma Holds.text {i : Nat} (hi : i < arg.length + 1) (hnx : args = [] ∨ i < argLen arg)
    (hsz : offset + 2 + i < size) :
    m (offset + 2 + i) = (arg ++ [0]).getD i 0 := by
  obtain ⟨fresh, hm⟩ := h
  have hstr : ∀ fresh : Mem, ((fresh.store (offset + cmdSingleLinePduSize) (arg ++ [0])).store
      offset (putLe b (argLenWord arg))) (offset + 2 + i) = (arg ++ [0]).getD i 0 := by
    intro fresh
    rw [store_of_not_mem _ (.inr (by rw [length_putLe]; omega)),
      store_of_mem _ (by simp only [cmdSingleLinePduSize]; omega)
        (by simp only [cmdSingleLinePduSize, length_append, length_singleton]; omega)]
    congr 1
    simp only [cmdSingleLinePduSize]
    omega
  rw [hm _ (by omega) hsz, storeLines]
  rcases hnx with rfl | hlt
  · exact hstr fresh
  · rw [storeLines_below args (by simp only [cmdSingleLinePduSize]; omega)]
    exact hstr fresh

lemma Holds.load_text (hn : n ≤ arg.length + 1) (hnx : args = [] ∨ n ≤ argLen arg)
    (hsz : offset + 2 + n ≤ size) :
    m.load (offset + 2) n = (arg ++ [0]).take n := by
  apply ext_getElem
  · simpa using hn
  · intro i h1 h2
    have hin : i < n := by simpa using h1
    have htx := h.text (i := i) (by omega) (hnx.imp id (by omega)) (by omega)
    have hlen : i < (arg ++ [0]).length := by
      rw [length_append, length_singleton]
      omega
    have hget : (arg ++ [0])[i] = (arg ++ [0]).getD i 0 := by
      rw [getD_eq_getElem?_getD, List.getElem?_eq_getElem hlen, Option.getD_some]
    rw [getElem_take, hget, ← htx]
    simp [load]

lemma Holds.isStr (hnul : 0 ∉ arg) (hnx : args = [] ∨ arg.length + 1 ≤ argLen arg)
    (hsz : offset + 2 + (arg.length + 1) ≤ size) : m.IsStr (offset + 2) arg := by
  refine ⟨?_, ?_, hnul⟩
  · rw [h.load_text (by omega) (hnx.imp id (by omega)) (by omega), take_left]
  · rw [h.text (by omega) (hnx.imp id (by omega)) (by omega)]
    simp

end

def lineOffsets : Nat → List (List UInt8) → List Nat
  | _, [] => []
  | offset, arg :: args =>
    offset :: lineOffsets (offset + (cmdSingleLinePduSize + argLen arg)) args

lemma Holds.walkLines (h : Holds b m size offset args) (hsz : offset + recordsLen args ≤ size) :
    walkLines b' m args.length offset = lineOffsets offset args := by
  induction args generalizing offset with
  | nil => rfl
  | cons arg args ih =>
    simp only [recordsLen, map_cons, sum_cons] at hsz
    have hlen : cslpLen b' m offset = argLen arg := by
      rw [cslpLen, toNat_getLe_load, h.header (by simp only [cmdSingleLinePduSize] at hsz; omega),
        leNat_leBytes_argLen]
    rw [length_cons, FioSsd.walkLines, lineOffsets, hlen,
      ih h.tail (by simp only [recordsLen]; omega)]

def LinesApart : List (List UInt8) → Prop
  | arg :: next :: args =>
    (arg.length + 1 < 2 ^ 16 ∨
      arg.drop (argLen arg) = leBytes 2 (argLen next) ++ next) ∧ LinesApart (next :: args)
  | _ => True

def linesEnd : Nat → List (List UInt8) → Nat
  | offset, [] => offset
  | offset, [arg] => offset + cmdSingleLinePduSize + (arg.length + 1)
  | offset, arg :: next :: args =>
    linesEnd (offset + (cmdSingleLinePduSize + argLen arg)) (next :: args)

def TextsAre (m : Mem) (offset : Nat) (args : List (List UInt8)) : Prop :=
  List.Forall₂ (fun at_ arg => m.IsStr (at_ + cmdSingleLinePduSize) arg) (lineOffsets offset args)
    args

lemma argLen_of_short (h : arg.length + 1 < 2 ^ 16) : argLen arg = arg.length + 1 := by
  rw [argLen_eq, Nat.mod_eq_of_lt h]

lemma Holds.textsAre (h : Holds b m size offset args) (hnul : ∀ arg ∈ args, 0 ∉ arg)
    (hsz : offset + recordsLen args ≤ size) (hap : LinesApart args)
    (hend : linesEnd offset args ≤ size) : TextsAre m offset args := by
  induction args generalizing offset with
  | nil => exact .nil
  | cons arg args ih =>
    simp only [recordsLen, map_cons, sum_cons] at hsz
    have hnla := hnul arg (.head _)
    cases args with
    | nil =>
      exact .cons (h.isStr hnla (.inl rfl) (by
        simp only [linesEnd, cmdSingleLinePduSize] at hend; omega)) .nil
    | cons next args =>
      have hrs := ih h.tail (fun a ha => hnul a (.tail _ ha))
        (by simp only [recordsLen]; omega) hap.2 hend
      refine .cons ?_ hrs
      rcases hap.1 with hsh | hover
      · have hlen := argLen_of_short hsh
        exact h.isStr hnla (.inr hlen.ge) (by simp only [cmdSingleLinePduSize] at hsz; omega)
      · -- the text runs over into the next record, whose bytes are its own
        have hnx : m.IsStr (offset + (cmdSingleLinePduSize + argLen arg) + 2) next := by
          cases hrs with
          | cons hhd _ => exact hhd
        have hlt : argLen arg ≤ arg.length := by
          by_contra hgt
          have hnil : arg.drop (argLen arg) = [] := drop_eq_nil_of_le (by omega)
          have hlen := congrArg List.length (hnil.symm.trans hover)
          rw [length_nil, length_append, length_leBytes] at hlen
          omega
        have hhd := h.tail.header (by
          simp [sum_cons, cmdSingleLinePduSize] at hsz ⊢; omega)
        have hpre := h.load_text (n := argLen arg) (by omega) (.inr le_rfl)
          (by simp only [cmdSingleLinePduSize] at hsz; omega)
        rw [take_append_of_le_length hlt] at hpre
        have hsp : arg = arg.take (argLen arg) ++ (leBytes 2 (argLen next) ++ next) := by
          rw [← hover, take_append_drop]
        have hnls : 0 ∉ arg.take (argLen arg) ∧ 0 ∉ leBytes 2 (argLen next) := by
          rw [hsp] at hnla
          simp only [mem_append, not_or] at hnla
          exact ⟨hnla.1, hnla.2.1⟩
        rw [hsp]
        refine isStr_append.2 ⟨?_, hnls.1, isStr_append.2 ⟨?_, hnls.2, ?_⟩⟩
        · rw [length_take, min_eq_left hlt]
          exact hpre
        · rw [length_take, min_eq_left hlt, length_leBytes, add_assoc]
          exact hhd
        · rw [length_take, min_eq_left hlt, length_leBytes, add_assoc offset cmdSingleLinePduSize]
          exact hnx

lemma Holds.drop_eq_of_isStr {next : List UInt8} (h : Holds b m size offset (arg :: next :: args))
    (hsz : offset + recordsLen (arg :: next :: args) ≤ size) (harg : m.IsStr (offset + 2) arg)
    (hnx : m.IsStr (offset + (cmdSingleLinePduSize + argLen arg) + 2) next)
    (hln : 2 ^ 16 ≤ arg.length + 1) : arg.drop (argLen arg) = leBytes 2 (argLen next) ++ next := by
  have hmod := argLen_eq arg
  have hlt := argLen_lt arg
  simp [recordsLen, sum_cons, cmdSingleLinePduSize] at hsz
  have hhd := h.tail.header (by simp only [cmdSingleLinePduSize]; omega)
  -- the argument in three pieces: up to the next record, under its length word, behind it
  have hsp : arg = arg.take (argLen arg) ++
      ((arg.drop (argLen arg)).take 2 ++ (arg.drop (argLen arg)).drop 2) := by
    rw [take_append_drop, take_append_drop]
  have hlnt : (arg.take (argLen arg)).length = argLen arg := by
    rw [length_take]; omega
  have hlnw : ((arg.drop (argLen arg)).take 2).length = 2 := by
    rw [length_take, length_drop]; omega
  rw [hsp, isStr_append, hlnt, isStr_append, hlnw] at harg
  obtain ⟨-, -, hwr, -, htl⟩ := harg
  have heq : (arg.drop (argLen arg)).drop 2 = next := by
    refine htl.unique ?_
    rw [add_assoc offset]
    exact hnx
  rw [add_assoc offset] at hwr
  rw [← hhd, ← heq, ← take_append_drop 2 (arg.drop (argLen arg))]
  rw [show offset + (cmdSingleLinePduSize + argLen arg) = offset + (2 + argLen arg) from rfl, hwr]
  simp

lemma Holds.linesApart (h : Holds b m size offset args) (hsz : offset + recordsLen args ≤ size)
    (htx : TextsAre m offset args) : LinesApart args := by
  induction args generalizing offset with
  | nil => trivial
  | cons arg args ih =>
    cases args with
    | nil => trivial
    | cons next args =>
      have hsza := hsz
      simp only [recordsLen, map_cons, sum_cons] at hsz
      cases htx with
      | cons harg hrs =>
        refine ⟨?_, ih h.tail (by simp only [recordsLen, map_cons, sum_cons]; omega) hrs⟩
        by_cases hsh : arg.length + 1 < 2 ^ 16
        · exact .inl hsh
        · refine .inr (h.drop_eq_of_isStr hsza harg ?_ (by omega))
          cases hrs with
          | cons hnx _ => exact hnx

lemma linesEnd_le_of_textsAre (h : ∀ x, size ≤ x → m x ≠ 0) (hsz : offset + recordsLen args ≤ size)
    (htx : TextsAre m offset args) : linesEnd offset args ≤ size := by
  induction args generalizing offset with
  | nil => simpa [linesEnd, recordsLen] using hsz
  | cons arg args ih =>
    cases htx with
    | cons harg hrs =>
      cases args with
      | nil =>
        by_contra hgt
        simp only [linesEnd] at hgt
        exact h _ (by omega) harg.stop
      | cons next args =>
        simp only [recordsLen, map_cons, sum_cons] at hsz
        exact ih (by simp only [recordsLen, map_cons, sum_cons]; omega) hrs

def CmdLineArrives (b b' : ByteOrder) (argv : List (List UInt8)) : Prop :=
  ∀ fresh m : Mem,
    m.load 0 (sendClientCmdLine b fresh argv).length = sendClientCmdLine b fresh argv →
      List.Forall₂ m.IsStr (handleJoblineArgv b' m) argv

lemma holds_of_payload (b' : ByteOrder)
    (h : m.load 0 (sendClientCmdLine b fresh argv).length = sendClientCmdLine b fresh argv) :
    Holds b m (cmdLineMem (clientArgs argv)) cmdLinePduSize (clientArgs argv) ∧
      clpLines b' m = (clientArgc argv).toNat := by
  have hpn : ∀ x < cmdLineMem (clientArgs argv), m x = cmdLinePdu b fresh argv x := by
    intro x hx
    rw [sendClientCmdLine, length_load] at h
    have hget := congrArg (fun l : List UInt8 => l[x]?) h
    simpa [load, hx] using hget
  have hmem := recordsLen_le_mem (clientArgs argv)
  refine ⟨⟨fresh, ?_⟩, ?_⟩
  · intro x hlo hhi
    rw [hpn x hhi, cmdLinePdu, store_of_not_mem _ (.inr (by
      rw [length_putLe]; simpa [cmdLinePduSize] using hlo))]
  · have hld : m.load 0 2 = leBytes 2 (clientArgc argv).toNat := by
      rw [← putLe_eq_leBytes b, ← load_store_same
        (storeLines b fresh cmdLinePduSize (clientArgs argv)) 0 _ (length_putLe b (clientArgc argv))]
      apply load_congr
      intro i hi
      exact hpn _ (by simp only [cmdLinePduSize] at hmem; omega)
    rw [clpLines, toNat_getLe_load, hld, leNat_leBytes_of_lt (by
      have hlt := (clientArgc argv).isLt
      norm_num at hlt ⊢
      exact hlt)]

lemma length_clientArgs (argv : List (List UInt8)) :
    (clientArgs argv).length = (clientArgc argv).toNat := by
  rw [clientArgs, length_take, min_eq_left]
  rw [clientArgc, BitVec.toNat_ofNat]
  exact Nat.mod_le _ _

lemma handleJoblineArgv_of_payload
    (h : m.load 0 (sendClientCmdLine b fresh argv).length = sendClientCmdLine b fresh argv) :
    handleJoblineArgv b' m =
      (lineOffsets cmdLinePduSize (clientArgs argv)).map (· + cmdSingleLinePduSize) := by
  obtain ⟨hhl, hln⟩ := holds_of_payload b' h
  rw [handleJoblineArgv, handleJoblineRecords, hln, ← length_clientArgs,
    hhl.walkLines (recordsLen_le_mem _)]

lemma length_lineOffsets (offset : Nat) (args : List (List UInt8)) :
    (lineOffsets offset args).length = args.length := by
  induction args generalizing offset with
  | nil => rfl
  | cons arg args ih => simp [lineOffsets, ih]

lemma clientArgs_of_lt (h : argv.length < 2 ^ 16) : clientArgs argv = argv := by
  rw [clientArgs, clientArgc, BitVec.toNat_ofNat, Nat.mod_eq_of_lt (by simpa using h), take_length]

def onesBehind (m : Mem) (size : Nat) : Mem := fun x => if x < size then m x else 1

lemma load_onesBehind (m : Mem) (size : Nat) : (onesBehind m size).load 0 size = m.load 0 size := by
  apply load_congr
  intro i hi
  exact if_pos (by omega)

structure CmdLineFits (argv : List (List UInt8)) : Prop where
  count : argv.length < 2 ^ 16
  apart : LinesApart argv
  last : linesEnd cmdLinePduSize argv ≤ cmdLineMem argv

lemma CmdLineArrives.fits (h : CmdLineArrives b b' argv) : CmdLineFits argv := by
  have hmem := recordsLen_le_mem argv
  -- a server whose memory behind the payload has no zero
  have hhel := load_onesBehind (cmdLinePdu b (fun _ => 0) argv) (cmdLineMem (clientArgs argv))
  have hpyl : (onesBehind (cmdLinePdu b (fun _ => 0) argv) (cmdLineMem (clientArgs argv))).load
      0 (sendClientCmdLine b (fun _ => 0) argv).length = sendClientCmdLine b (fun _ => 0) argv := by
    rw [show (sendClientCmdLine b (fun _ => 0) argv).length = cmdLineMem (clientArgs argv) from
      length_load _ _ _]
    exact hhel
  have har := h _ _ hpyl
  rw [handleJoblineArgv_of_payload hpyl] at har
  have hcnt : argv.length < 2 ^ 16 := by
    have hlen := har.length_eq
    rw [length_map, length_lineOffsets, length_clientArgs] at hlen
    rw [← hlen]
    exact (clientArgc argv).isLt
  obtain ⟨hhl, -⟩ := holds_of_payload b' hpyl
  rw [clientArgs_of_lt hcnt] at har hhl
  have htx := forall₂_map_left_iff.1 har
  refine ⟨hcnt, hhl.linesApart hmem htx, linesEnd_le_of_textsAre ?_ hmem htx⟩
  intro x hx
  rw [onesBehind, if_neg (Nat.not_lt.2 hx)]
  decide

lemma CmdLineFits.arrives (h : CmdLineFits argv) (hnul : ∀ arg ∈ argv, 0 ∉ arg)
    : CmdLineArrives b b' argv := by
  intro fresh m hpyl
  obtain ⟨hhl, -⟩ := holds_of_payload b' hpyl
  rw [handleJoblineArgv_of_payload hpyl, clientArgs_of_lt h.count]
  rw [clientArgs_of_lt h.count] at hhl
  exact forall₂_map_left_iff.2 (hhl.textsAre hnul (recordsLen_le_mem argv) h.apart h.last)

/-- **The command line arrives exactly when its numbers fit.** -/
theorem cmdLineArrives_iff (b b' : ByteOrder)
    (argv : {args : List (List UInt8) // ∀ arg ∈ args, 0 ∉ arg}) :
    CmdLineArrives b b' argv.val ↔ CmdLineFits argv.val := by
  constructor
  · intro harv
    exact harv.fits
  · intro hft
    exact hft.arrives argv.property

/-- An argument of 65535 characters is sent with length 0, and the next one is written over it. -/
theorem cmdLine_cuts_long_argument :
    (∀ arg ∈ [List.replicate 65535 97, [120]], (0 : UInt8) ∉ arg) ∧
      ¬ CmdLineArrives .little .little [List.replicate 65535 97, [120]] := by
  refine ⟨?_, ?_⟩
  · intro arg harg
    rcases mem_cons.1 harg with rfl | hla
    · rw [mem_replicate]
      exact fun h => absurd h.2 (by decide)
    · rw [mem_singleton.1 hla]
      decide
  · intro harv
    rcases harv.fits.apart.1 with hsh | hover
    · rw [length_replicate] at hsh
      omega
    · have hlen := congrArg List.length hover
      rw [length_drop, argLen_eq, length_replicate, length_append, length_leBytes] at hlen
      simp at hlen

/-- Every header and every text that `handle_jobline_cmd` reads lies in the payload, whatever
    memory the payload lies in. -/
def JoblineInside (b : ByteOrder) (payload : List UInt8) : Prop :=
  ∀ m : Mem, m.load 0 payload.length = payload →
    cmdLinePduSize ≤ payload.length ∧
      ∀ offset ∈ handleJoblineRecords b m,
        offset + cmdSingleLinePduSize ≤ payload.length ∧
          ∃ text, m.IsStr (offset + cmdSingleLinePduSize) text ∧
            offset + cmdSingleLinePduSize + (text.length + 1) ≤ payload.length

def LinesIn : Nat → List UInt8 → Prop
  | 0, _ => True
  | lines + 1, bytes =>
    cmdSingleLinePduSize ≤ bytes.length ∧ 0 ∈ bytes.drop cmdSingleLinePduSize ∧
      LinesIn lines (bytes.drop (cmdSingleLinePduSize + leNat (bytes.take 2)))

/-- A payload that is what `struct cmd_line_pdu` says: as many records as it counts. -/
def JoblineWellFormed (payload : List UInt8) : Prop :=
  cmdLinePduSize ≤ payload.length ∧
    LinesIn (leNat (payload.take 2)) (payload.drop cmdLinePduSize)

section

variable (h : m.load 0 payload.length = payload)

include h

lemma load_of_payload
    (hn : offset + n ≤ payload.length) : m.load offset n = (payload.drop offset).take n := by
  obtain ⟨k, hk⟩ := Nat.exists_eq_add_of_le hn
  rw [hk, add_assoc, load_add, load_add] at h
  rw [← h, drop_append_of_le_length (by simp), drop_eq_nil_of_le (by simp), zero_add]
  simp

lemma cslpLen_of_payload
    (hn : offset + 2 ≤ payload.length) :
    cslpLen b m offset = leNat ((payload.drop offset).take 2) := by
  rw [cslpLen, toNat_getLe_load, load_of_payload h hn]

lemma isStr_inside_iff (hoff : offset ≤ payload.length) :
    (∃ text, m.IsStr offset text ∧ offset + (text.length + 1) ≤ payload.length) ↔
      0 ∈ payload.drop offset := by
  have hrs : m.load offset (payload.length - offset) =
      (payload.drop offset).take (payload.length - offset) := load_of_payload h (by omega)
  rw [take_of_length_le (by rw [length_drop])] at hrs
  constructor
  · rintro ⟨text, htx, hin⟩
    rw [← hrs]
    refine mem_map.2 ⟨text.length, mem_range.2 (by omega), htx.stop⟩
  · intro hmem
    have hlen : (payload.drop offset).length = payload.length - offset := length_drop
    obtain ⟨text, htx, hlt⟩ := exists_isStr_of_mem (m := m) (a := offset)
      (by rw [hlen]; exact hrs) hmem
    exact ⟨text, htx, by omega⟩

lemma walkLines_inside_iff (lines offset : Nat) :
    (∀ at_ ∈ walkLines b m lines offset, at_ + cmdSingleLinePduSize ≤ payload.length ∧
        ∃ text, m.IsStr (at_ + cmdSingleLinePduSize) text ∧
          at_ + cmdSingleLinePduSize + (text.length + 1) ≤ payload.length) ↔
      LinesIn lines (payload.drop offset) := by
  induction lines generalizing offset with
  | zero => simp [walkLines, LinesIn]
  | succ lines ih =>
    rw [walkLines, forall_mem_cons, ih, LinesIn, length_drop, drop_drop, drop_drop]
    -- the header is the first bytes of the rest as soon as it lies in the payload
    by_cases hhd : offset + cmdSingleLinePduSize ≤ payload.length
    · rw [isStr_inside_iff h hhd, cslpLen_of_payload h hhd]
      have hle : cmdSingleLinePduSize ≤ payload.length - offset := by omega
      simp [hhd, hle]
    · have hle : ¬ cmdSingleLinePduSize ≤ payload.length - offset := by
        simp only [cmdSingleLinePduSize] at hhd ⊢
        omega
      simp [hhd, hle]

end

def payloadMem (payload : List UInt8) : Mem := fun x => payload.getD x 0

lemma load_payloadMem (payload : List UInt8) :
    (payloadMem payload).load 0 payload.length = payload := by
  apply ext_getElem
  · simp
  · intro i h1 h2
    simp [load, payloadMem, getD_eq_getElem?_getD, h2]

/-- **The server reads inside the message exactly when the message is well formed**: it never
    compares what it walks with the length of the message. -/
theorem joblineInside_iff (b : ByteOrder) (payload : List UInt8) :
    JoblineInside b payload ↔ JoblineWellFormed payload := by
  have hln : ∀ m : Mem, m.load 0 payload.length = payload → cmdLinePduSize ≤ payload.length →
      clpLines b m = leNat (payload.take 2) := by
    intro m hm hlen
    rw [clpLines, toNat_getLe_load, load_of_payload hm (by simpa [cmdLinePduSize] using hlen),
      drop_zero]
  constructor
  · intro hins
    obtain ⟨hlen, hall⟩ := hins _ (load_payloadMem payload)
    rw [handleJoblineRecords, hln _ (load_payloadMem payload) hlen] at hall
    exact ⟨hlen, (walkLines_inside_iff (load_payloadMem payload) _ _).1 hall⟩
  · rintro ⟨hlen, hwl⟩ m hm
    refine ⟨hlen, ?_⟩
    rw [handleJoblineRecords, hln m hm hlen]
    exact (walkLines_inside_iff hm _ _).2 hwl

/-- A received message of two bytes that counts one argument: its header lies behind it. -/
theorem jobline_reads_behind_message :
    ∃ stream : List UInt8, ∃ cmd : NetCmd,
      (fioNetRecvCmd (fun _ => 0) .little stream).cmd = some cmd ∧
        cmd.opcode = fioNetCmdJobline ∧ ¬ JoblineInside .little cmd.payload := by
  refine ⟨_, _, (fioNetRecvCmd_sent (fun _ => 0) .little .little fioNetCmdJobline [1, 0] 0 []).1,
    rfl, ?_⟩
  intro hins
  obtain ⟨-, hall⟩ := hins _ (load_payloadMem _)
  have hfr := (hall 2 (by decide)).1
  exact absurd hfr (by decide)

end FioSsd
