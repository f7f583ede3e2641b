import FioSsd.Lib.Memory

/-! # CRC-32C -/

namespace FioSsd

open List BitVec

def crc32cTable : List (BitVec 32) := [
  0x00000000, 0xF26B8303, 0xE13B70F7, 0x1350F3F4, 0xC79A971F, 0x35F1141C, 0x26A1E7E8, 0xD4CA64EB,
  0x8AD958CF, 0x78B2DBCC, 0x6BE22838, 0x9989AB3B, 0x4D43CFD0, 0xBF284CD3, 0xAC78BF27, 0x5E133C24,
  0x105EC76F, 0xE235446C, 0xF165B798, 0x030E349B, 0xD7C45070, 0x25AFD373, 0x36FF2087, 0xC494A384,
  0x9A879FA0, 0x68EC1CA3, 0x7BBCEF57, 0x89D76C54, 0x5D1D08BF, 0xAF768BBC, 0xBC267848, 0x4E4DFB4B,
  0x20BD8EDE, 0xD2D60DDD, 0xC186FE29, 0x33ED7D2A, 0xE72719C1, 0x154C9AC2, 0x061C6936, 0xF477EA35,
  0xAA64D611, 0x580F5512, 0x4B5FA6E6, 0xB93425E5, 0x6DFE410E, 0x9F95C20D, 0x8CC531F9, 0x7EAEB2FA,
  0x30E349B1, 0xC288CAB2, 0xD1D83946, 0x23B3BA45, 0xF779DEAE, 0x05125DAD, 0x1642AE59, 0xE4292D5A,
  0xBA3A117E, 0x4851927D, 0x5B016189, 0xA96AE28A, 0x7DA08661, 0x8FCB0562, 0x9C9BF696, 0x6EF07595,
  0x417B1DBC, 0xB3109EBF, 0xA0406D4B, 0x522BEE48, 0x86E18AA3, 0x748A09A0, 0x67DAFA54, 0x95B17957,
  0xCBA24573, 0x39C9C670, 0x2A993584, 0xD8F2B687, 0x0C38D26C, 0xFE53516F, 0xED03A29B, 0x1F682198,
  0x5125DAD3, 0xA34E59D0, 0xB01EAA24, 0x42752927, 0x96BF4DCC, 0x64D4CECF, 0x77843D3B, 0x85EFBE38,
  0xDBFC821C, 0x2997011F, 0x3AC7F2EB, 0xC8AC71E8, 0x1C661503, 0xEE0D9600, 0xFD5D65F4, 0x0F36E6F7,
  0x61C69362, 0x93AD1061, 0x80FDE395, 0x72966096, 0xA65C047D, 0x5437877E, 0x4767748A, 0xB50CF789,
  0xEB1FCBAD, 0x197448AE, 0x0A24BB5A, 0xF84F3859, 0x2C855CB2, 0xDEEEDFB1, 0xCDBE2C45, 0x3FD5AF46,
  0x7198540D, 0x83F3D70E, 0x90A324FA, 0x62C8A7F9, 0xB602C312, 0x44694011, 0x5739B3E5, 0xA55230E6,
  0xFB410CC2, 0x092A8FC1, 0x1A7A7C35, 0xE811FF36, 0x3CDB9BDD, 0xCEB018DE, 0xDDE0EB2A, 0x2F8B6829,
  0x82F63B78, 0x709DB87B, 0x63CD4B8F, 0x91A6C88C, 0x456CAC67, 0xB7072F64, 0xA457DC90, 0x563C5F93,
  0x082F63B7, 0xFA44E0B4, 0xE9141340, 0x1B7F9043, 0xCFB5F4A8, 0x3DDE77AB, 0x2E8E845F, 0xDCE5075C,
  0x92A8FC17, 0x60C37F14, 0x73938CE0, 0x81F80FE3, 0x55326B08, 0xA759E80B, 0xB4091BFF, 0x466298FC,
  0x1871A4D8, 0xEA1A27DB, 0xF94AD42F, 0x0B21572C, 0xDFEB33C7, 0x2D80B0C4, 0x3ED04330, 0xCCBBC033,
  0xA24BB5A6, 0x502036A5, 0x4370C551, 0xB11B4652, 0x65D122B9, 0x97BAA1BA, 0x84EA524E, 0x7681D14D,
  0x2892ED69, 0xDAF96E6A, 0xC9A99D9E, 0x3BC21E9D, 0xEF087A76, 0x1D63F975, 0x0E330A81, 0xFC588982,
  0xB21572C9, 0x407EF1CA, 0x532E023E, 0xA145813D, 0x758FE5D6, 0x87E466D5, 0x94B49521, 0x66DF1622,
  0x38CC2A06, 0xCAA7A905, 0xD9F75AF1, 0x2B9CD9F2, 0xFF56BD19, 0x0D3D3E1A, 0x1E6DCDEE, 0xEC064EED,
  0xC38D26C4, 0x31E6A5C7, 0x22B65633, 0xD0DDD530, 0x0417B1DB, 0xF67C32D8, 0xE52CC12C, 0x1747422F,
  0x49547E0B, 0xBB3FFD08, 0xA86F0EFC, 0x5A048DFF, 0x8ECEE914, 0x7CA56A17, 0x6FF599E3, 0x9D9E1AE0,
  0xD3D3E1AB, 0x21B862A8, 0x32E8915C, 0xC083125F, 0x144976B4, 0xE622F5B7, 0xF5720643, 0x07198540,
  0x590AB964, 0xAB613A67, 0xB831C993, 0x4A5A4A90, 0x9E902E7B, 0x6CFBAD78, 0x7FAB5E8C, 0x8DC0DD8F,
  0xE330A81A, 0x115B2B19, 0x020BD8ED, 0xF0605BEE, 0x24AA3F05, 0xD6C1BC06, 0xC5914FF2, 0x37FACCF1,
  0x69E9F0D5, 0x9B8273D6, 0x88D28022, 0x7AB90321, 0xAE7367CA, 0x5C18E4C9, 0x4F48173D, 0xBD23943E,
  0xF36E6F75, 0x0105EC76, 0x12551F82, 0xE03E9C81, 0x34F4F86A, 0xC69F7B69, 0xD5CF889D, 0x27A40B9E,
  0x79B737BA, 0x8BDCB4B9, 0x988C474D, 0x6AE7C44E, 0xBE2DA0A5, 0x4C4623A6, 0x5F16D052, 0xAD7D5351]

def crc32cSw (data : List UInt8) : BitVec 32 :=
  data.foldl (fun crc b =>
    crc32cTable.getD ((crc ^^^ b.toBitVec.setWidth 32) &&& 0xFF#32).toNat 0 ^^^ (crc >>> 8)) (~~~0)

variable (crc : BitVec 32)

def crcStep : BitVec 32 :=
  if crc.getLsbD 0 then (crc >>> 1) ^^^ 0x82F63B78 else crc >>> 1

def crcByte (b : UInt8) : BitVec 32 :=
  crcStep^[8] (crc ^^^ b.toBitVec.setWidth 32)

structure Sse42 where
  crc32 : Nat → BitVec 32 → Nat → BitVec 32
  /-- The operand is folded into the register byte by byte, the lowest first. -/
  crc32_eq : ∀ n ∈ [1, 4, 8], ∀ crc x, crc32 n crc x = (leBytes n x).foldl crcByte crc

inductive BitsPerLong
  | bits32
  | bits64

def BitsPerLong.scaleF : BitsPerLong → Nat
  | .bits32 => 4
  | .bits64 => 8

def crc32cIntelLeHwByte (cpu : Sse42) (crc : BitVec 32) (data : List UInt8) : BitVec 32 :=
  data.foldl (fun crc b => cpu.crc32 1 crc b.toNat) crc

/-- The loop of `crc32c_intel`: the register and what is left of the data after `iquotient` words. -/
def crcWords (cpu : Sse42) (scaleF : Nat) : Nat → BitVec 32 → List UInt8 → BitVec 32 × List UInt8
  | 0, crc, data => (crc, data)
  | iquotient + 1, crc, data =>
    crcWords cpu scaleF iquotient (cpu.crc32 scaleF crc (leNat (data.take scaleF)))
      (data.drop scaleF)

def crc32cIntel (cpu : Sse42) (bits : BitsPerLong) (data : List UInt8) : BitVec 32 :=
  let iquotient := data.length / bits.scaleF % 2 ^ 32
  let iremainder := data.length % bits.scaleF % 2 ^ 32
  let (crc, ptmp) := crcWords cpu bits.scaleF iquotient (~~~0) data
  if iremainder ≠ 0 then crc32cIntelLeHwByte cpu crc (ptmp.take iremainder) else crc

lemma crcStep_xor (x y : BitVec 32) : crcStep (x ^^^ y) = crcStep x ^^^ crcStep y := by
  unfold crcStep
  rw [BitVec.getLsbD_xor, BitVec.ushiftRight_xor_distrib]
  have hcnc : ∀ a b p : BitVec 32, a ^^^ b = (a ^^^ p) ^^^ (b ^^^ p) := by
    intro a b p
    rw [BitVec.xor_assoc, ← BitVec.xor_assoc p, BitVec.xor_comm p, BitVec.xor_assoc b,
      BitVec.xor_self, BitVec.xor_zero]
  cases x.getLsbD 0 <;> cases y.getLsbD 0
  · rfl
  · exact BitVec.xor_assoc _ _ _
  · show (x >>> 1 ^^^ y >>> 1) ^^^ _ = (x >>> 1 ^^^ _) ^^^ y >>> 1
    rw [BitVec.xor_assoc, BitVec.xor_comm (y >>> 1), BitVec.xor_assoc]
  · exact hcnc _ _ _

lemma crcSteps_xor (n : Nat) (x y : BitVec 32) :
    crcStep^[n] (x ^^^ y) = crcStep^[n] x ^^^ crcStep^[n] y := by
  induction n with
  | zero => rfl
  | succ n ih => simp only [Function.iterate_succ_apply', ih, crcStep_xor]

lemma crcSteps_shiftLeft (x : BitVec 32) {n : Nat} (h : n ≤ 8) :
    crcStep^[n] (x <<< 8) = (x <<< 8) >>> n := by
  induction n with
  | zero => exact (ushiftRight_zero _).symm
  | succ n ih =>
    have hbit : ((x <<< 8) >>> n).getLsbD 0 = false := by
      rw [getLsbD_ushiftRight, getLsbD_shiftLeft]
      simp [show n < 8 by omega]
    rw [Function.iterate_succ_apply', ih (by omega), crcStep, hbit, shiftRight_add]
    rfl

lemma crc32cTable_eq {i : Nat} (h : i < 256) :
    crc32cTable.getD i 0 = crcStep^[8] (BitVec.ofNat 32 i) := by
  have hall : (List.range 256).all
      (fun i => crc32cTable.getD i 0 = crcStep^[8] (BitVec.ofNat 32 i)) = true := by
    decide +kernel
  exact of_decide_eq_true (all_eq_true.1 hall i (mem_range.2 h))

lemma crcByte_eq (b : UInt8) : crcByte crc b =
      crc32cTable.getD ((crc ^^^ b.toBitVec.setWidth 32) &&& 0xFF#32).toNat 0 ^^^ (crc >>> 8) := by
  have hlow : ((crc ^^^ b.toBitVec.setWidth 32) &&& 0xFF#32).toNat < 256 := by
    rw [toNat_and]
    exact Nat.lt_succ_of_le Nat.and_le_right
  have hsp : crc ^^^ b.toBitVec.setWidth 32 =
      ((crc ^^^ b.toBitVec.setWidth 32) &&& 0xFF#32) ^^^ ((crc >>> 8) <<< 8) := by
    refine eq_of_getLsbD_eq fun i hi => ?_
    have hms : (0xFF#32).getLsbD i = decide (i < 8) := by
      show (2 ^ 8 - 1).testBit i = _
      exact Nat.testBit_two_pow_sub_one 8 i
    have hbc : ¬i < 8 → 8 + (i - 8) = i := by omega
    simp only [getLsbD_xor, getLsbD_and, getLsbD_shiftLeft,
      getLsbD_ushiftRight, getLsbD_setWidth, hms, hi, decide_true, Bool.true_and]
    by_cases h8 : i < 8
    · simp [h8]
    · simp [h8, hbc h8, getLsbD_of_ge b.toBitVec i (by omega)]
  have hhg : crcStep^[8] ((crc >>> 8) <<< 8) = crc >>> 8 := by
    rw [crcSteps_shiftLeft _ (le_refl 8)]
    refine eq_of_getLsbD_eq fun i hi => ?_
    by_cases h24 : 8 + i < 32
    · simp [h24]
    · simp [h24, getLsbD_of_ge crc (8 + i) (by omega)]
  rw [crcByte, hsp, crcSteps_xor, hhg, ← hsp, crc32cTable_eq hlow, ofNat_toNat, setWidth_eq]

variable (cpu : Sse42)

lemma crc32cIntelLeHwByte_eq (data : List UInt8) :
    crc32cIntelLeHwByte cpu crc data = data.foldl crcByte crc := by
  have hby : (fun crc (b : UInt8) => cpu.crc32 1 crc b.toNat) = crcByte := by
    funext crc b
    rw [cpu.crc32_eq 1 (by simp)]
    simp [leBytes]
  rw [crc32cIntelLeHwByte, hby]

lemma crcWords_eq {scaleF : Nat} (h : scaleF ∈ [1, 4, 8]) (iquotient : Nat)
    (crc : BitVec 32) (data : List UInt8) (hlen : scaleF * iquotient ≤ data.length) :
    crcWords cpu scaleF iquotient crc data =
      ((data.take (scaleF * iquotient)).foldl crcByte crc, data.drop (scaleF * iquotient)) := by
  induction iquotient generalizing crc data with
  | zero => simp [crcWords]
  | succ n ih =>
    have hmul : scaleF * (n + 1) = scaleF + scaleF * n := by ring
    have htk : (data.take scaleF).length = scaleF := length_take_of_le (by omega)
    have hwr : leBytes scaleF (leNat (data.take scaleF)) = data.take scaleF := by
      conv_rhs => rw [← leBytes_leNat (data.take scaleF), htk]
    rw [crcWords, ih _ _ (by rw [length_drop]; omega), cpu.crc32_eq scaleF h, hwr, hmul, take_add,
      foldl_append, drop_drop]

/-- **The software and the hardware CRC-32C agree.** -/
theorem crc32cIntel_eq_crc32cSw (bits : BitsPerLong) (data : List UInt8)
    (hlen : data.length < 2 ^ 32) : crc32cIntel cpu bits data = crc32cSw data := by
  have hsc : bits.scaleF ∈ [1, 4, 8] := by cases bits <;> simp [BitsPerLong.scaleF]
  have hpos : 0 < bits.scaleF := by cases bits <;> simp [BitsPerLong.scaleF]
  have hqt : data.length / bits.scaleF % 2 ^ 32 = data.length / bits.scaleF :=
    Nat.mod_eq_of_lt (lt_of_le_of_lt (Nat.div_le_self _ _) hlen)
  have hrem : data.length % bits.scaleF % 2 ^ 32 = data.length % bits.scaleF :=
    Nat.mod_eq_of_lt (lt_of_le_of_lt (Nat.mod_le _ _) hlen)
  have hsum := Nat.div_add_mod data.length bits.scaleF
  have hsw : crc32cSw data = data.foldl crcByte (~~~0) := by
    unfold crc32cSw
    congr 1
    funext crc b
    exact (crcByte_eq crc b).symm
  have htl : (data.drop (bits.scaleF * (data.length / bits.scaleF))).length =
      data.length % bits.scaleF := by
    rw [length_drop]
    omega
  simp only [crc32cIntel, hqt, hrem]
  rw [crcWords_eq cpu hsc _ _ _ (by omega), hsw]
  split_ifs with h0
  · rw [crc32cIntelLeHwByte_eq, take_of_length_le htl.le, ← foldl_append, take_append_drop]
  · rw [take_of_length_le (by omega)]

def Sse42.reference : Sse42 := ⟨fun n crc x => (leBytes n x).foldl crcByte crc, fun _ _ _ _ => rfl⟩

theorem crc32cIntel_eq_crc32cSw_nine :
    crc32cIntel .reference .bits64 [49, 50, 51, 52, 53, 54, 55, 56, 57] =
      crc32cSw [49, 50, 51, 52, 53, 54, 55, 56, 57] :=
  crc32cIntel_eq_crc32cSw .reference .bits64 _ (by decide)

lemma crcStep_injective : Function.Injective crcStep := by
  intro x y h
  have hz : crcStep (x ^^^ y) = 0#32 := by rw [crcStep_xor, h, BitVec.xor_self]
  have hx : x ^^^ y = 0#32 := by
    unfold crcStep at hz
    refine eq_of_getLsbD_eq fun i hi => ?_
    -- the polynomial has its top bit set, and the shifted register has not
    split_ifs at hz with h0
    · have htop := congrArg (·.getLsbD 31) hz
      simp at htop
    · cases i with
      | zero => simpa using h0
      | succ i =>
        have hbit := congrArg (·.getLsbD i) hz
        simpa [Nat.add_comm 1] using hbit
  exact BitVec.xor_eq_zero_iff.1 hx

/-- Up to four bytes are folded in as one word. -/
lemma foldl_crcByte {bs : List UInt8} (h : bs.length ≤ 4) (crc : BitVec 32) :
    bs.foldl crcByte crc = crcStep^[8 * bs.length] (crc ^^^ BitVec.ofNat 32 (leNat bs)) := by
  induction bs generalizing crc with
  | nil => simp [leNat]
  | cons b bs ih =>
    rw [length_cons] at h
    have hlt : leNat bs < 2 ^ 24 :=
      (leNat_lt bs).trans_le (Nat.pow_le_pow_right (n := 256) (by decide) (by omega : bs.length ≤ 3))
    have hup : crcStep^[8] (BitVec.ofNat 32 (leNat bs) <<< 8) = BitVec.ofNat 32 (leNat bs) := by
      rw [crcSteps_shiftLeft _ (le_refl 8)]
      bv_omega
    have hword : .ofNat 32 (leNat (b :: bs)) =
        b.toBitVec.setWidth 32 ^^^ BitVec.ofNat 32 (leNat bs) <<< 8 := by
      refine eq_of_getLsbD_eq fun i hi => ?_
      have hbit := Nat.testBit_two_pow_mul_add (leNat bs) b.toNat_lt i
      rw [leNat, Nat.add_comm, getLsbD_ofNat, hbit, getLsbD_xor, getLsbD_setWidth, getLsbD_shiftLeft,
        getLsbD_ofNat]
      by_cases h8 : i < 8
      · simp [h8, hi]
        rfl
      · simp [h8, hi, getLsbD_of_ge b.toBitVec i (by omega), show i - 8 < 32 by omega]
    rw [foldl_cons, ih (by omega), ← hup, crcByte, ← crcSteps_xor, ← Function.iterate_add_apply, hword,
      BitVec.xor_assoc]
    rfl

/-- **A burst of up to four bytes is always detected**, wherever it is. -/
theorem crc32cSw_burst (before after : List UInt8) {a b : List UInt8} (hlen : a.length = b.length)
    (h4 : a.length ≤ 4) (hne : a ≠ b) :
    crc32cSw (before ++ a ++ after) ≠ crc32cSw (before ++ b ++ after) := by
  intro heq
  have hsw : ∀ data, crc32cSw data = data.foldl crcByte (~~~0) := fun data => by
    simp only [crc32cSw, ← crcByte_eq]
  rw [hsw, hsw, foldl_append, foldl_append, foldl_append, foldl_append] at heq
  -- what follows the burst takes different registers to different ones
  have hmid : a.foldl crcByte (before.foldl crcByte (~~~0)) =
      b.foldl crcByte (before.foldl crcByte (~~~0)) := by
    generalize a.foldl crcByte _ = x, b.foldl crcByte _ = y at heq ⊢
    induction after generalizing x y with
    | nil => exact heq
    | cons c after ih =>
      exact (xor_left_inj _).1 (crcStep_injective.iterate 8 (ih _ _ heq))
  rw [foldl_crcByte h4, @foldl_crcByte b (hlen ▸ h4), ← hlen] at hmid
  have hword := (xor_right_inj _).1 (crcStep_injective.iterate _ hmid)
  have hnat : leNat a = leNat b := by
    have ha := leNat_lt a
    have hb := leNat_lt b
    have hle : 256 ^ a.length ≤ 256 ^ 4 := Nat.pow_le_pow_right (by decide) h4
    rw [← hlen] at hb
    bv_omega
  rw [← leBytes_leNat a, ← leBytes_leNat b, hnat, hlen] at hne
  exact hne rfl

theorem crc32cSw_burst_byte :
    crc32cSw ([1] ++ [2, 3] ++ [4]) ≠ crc32cSw ([1] ++ [2, 7] ++ [4]) :=
  crc32cSw_burst [1] [4] rfl (by decide) (by decide)

end FioSsd
