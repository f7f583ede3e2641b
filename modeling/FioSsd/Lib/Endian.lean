import FioSsd.Lib.Memory

/-! # Words between machines of either byte order -/

inductive ByteOrder
  | little | big
  deriving DecidableEq, Repr

namespace ByteOrder

variable {k : Nat} (b : ByteOrder)
variable (x : BitVec (8 * k))

def store : List UInt8 :=
  match b with
  | .little => leBytes k x.toNat
  | .big => (leBytes k x.toNat).reverse

def load (k : Nat) (bs : List UInt8) : BitVec (8 * k) :=
  match b with
  | .little => BitVec.ofNat _ (leNat bs)
  | .big => BitVec.ofNat _ (leNat bs.reverse)

def swap : BitVec (8 * k) := BitVec.ofNat _ (leNat (leBytes k x.toNat).reverse)

def le : BitVec (8 * k) :=
  match b with
  | .little => x
  | .big => swap x

lemma two_pow_eight_mul (k : Nat) : 2 ^ (8 * k) = 256 ^ k := by
  rw [Nat.pow_mul]

lemma toNat_ofNat_leNat {bs : List UInt8} (h : bs.length = k) :
    (BitVec.ofNat (8 * k) (leNat bs)).toNat = leNat bs := by
  have hlt := leNat_lt bs
  rw [h] at hlt
  rw [BitVec.toNat_ofNat, two_pow_eight_mul, Nat.mod_eq_of_lt hlt]

lemma store_le : b.store (b.le x) = leBytes k x.toNat := by
  cases b with
  | little => rfl
  | big =>
    have hlen : (leBytes k x.toNat).reverse.length = k := by simp
    have hby := leBytes_leNat (leBytes k x.toNat).reverse
    rw [hlen] at hby
    simp only [store, le, swap]
    rw [toNat_ofNat_leNat hlen, hby, List.reverse_reverse]

lemma le_load {bs : List UInt8} (h : bs.length = k) :
    b.le (b.load k bs) = BitVec.ofNat (8 * k) (leNat bs) := by
  cases b with
  | little => rfl
  | big =>
    have hrev : bs.reverse.length = k := by simpa using h
    have hby := leBytes_leNat bs.reverse
    rw [hrev] at hby
    simp only [load, le, swap]
    rw [toNat_ofNat_leNat hrev, hby, List.reverse_reverse]

@[simp] lemma le_load_store_le (b b' : ByteOrder) (x : BitVec (8 * k)) :
    b'.le (b'.load k (b.store (b.le x))) = x := by
  rw [store_le, le_load b' (length_leBytes k x.toNat)]
  apply BitVec.eq_of_toNat_eq
  have hlt : x.toNat < 256 ^ k := two_pow_eight_mul k ▸ x.isLt
  rw [toNat_ofNat_leNat (length_leBytes k x.toNat), leNat_leBytes_of_lt hlt]

@[simp] lemma load_store : b.load k (b.store x) = x := by
  have hlt : x.toNat < 256 ^ k := two_pow_eight_mul k ▸ x.isLt
  have hbc : BitVec.ofNat (8 * k) (leNat (leBytes k x.toNat)) = x := by
    rw [leNat_leBytes_of_lt hlt, BitVec.ofNat_toNat, BitVec.setWidth_eq]
  cases b with
  | little => exact hbc
  | big => rw [store, load, List.reverse_reverse, hbc]

lemma load_store_of_ne {b b' : ByteOrder} (h : b ≠ b') (x : BitVec (8 * k)) :
    b'.load k (b.store x) = swap x := by
  cases b <;> cases b' <;> first | rfl | exact absurd rfl h

lemma le_load_store (b b' : ByteOrder) (x : BitVec (8 * k)) :
    b'.le (b'.load k (b.store x)) = b.le x := by
  cases b with
  | little => exact le_load_store_le .little b' x
  | big =>
    have hlen : (leBytes k x.toNat).reverse.length = k := by simp
    rw [store, le_load b' hlen]
    rfl

lemma leNat_replicate_zero (n : Nat) : leNat (List.replicate n 0) = 0 := by
  induction n with
  | zero => rfl
  | succ n ih => simp [List.replicate_succ, leNat, ih]

@[simp] lemma load_zeros (k n : Nat) : b.load k (List.replicate n 0) = 0 := by
  cases b <;> simp [load, leNat_replicate_zero]

end ByteOrder
