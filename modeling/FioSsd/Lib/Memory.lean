import Mathlib.Tactic

/-! # Byte memory -/

def Mem : Type := Nat → UInt8

instance neZeroTwo : NeZero 2 := ⟨by decide⟩

namespace Mem

open List

variable {bs : List UInt8} {a n x : Nat} (m : Mem)

def load (a n : Nat) : List UInt8 :=
  (List.range n).map (fun i => m (a + i))

def store (a : Nat) (bs : List UInt8) : Mem :=
  fun x => if a ≤ x ∧ x < a + bs.length then bs.getD (x - a) 0 else m x

@[simp] lemma length_load (a n : Nat) : (m.load a n).length = n := by
  simp [load]

lemma load_congr {m m' : Mem} {a' : Nat} (h : ∀ i < n, m (a + i) = m' (a' + i)) :
    m.load a n = m'.load a' n := by
  apply map_congr_left
  intro i hi
  exact h i (mem_range.mp hi)

lemma load_add (a n k : Nat) : m.load a (n + k) = m.load a n ++ m.load (a + n) k := by
  simp only [load, range_add, map_append, map_map]
  congr 1
  apply map_congr_left
  intro i _
  simp [add_assoc]

lemma store_of_mem (h1 : a ≤ x)
    (h2 : x < a + bs.length) : m.store a bs x = bs.getD (x - a) 0 := if_pos ⟨h1, h2⟩

lemma store_of_not_mem (h : x < a ∨ a + bs.length ≤ x) : m.store a bs x = m x :=
  if_neg (by omega)

lemma store_congr {m m' : Mem} (a : Nat) (bs : List UInt8) (h : m x = m' x) :
    m.store a bs x = m'.store a bs x := by
  unfold store
  rw [h]

lemma load_store_same (a : Nat) (bs : List UInt8) (h : bs.length = n) :
    (m.store a bs).load a n = bs := by
  apply ext_getElem
  · simp [h]
  · intro i h1 h2
    have hget : (m.store a bs) (a + i) = bs.getD i 0 := by
      rw [store_of_mem m (by omega) (by omega)]
      congr 1
      omega
    simp only [load, getElem_map, getElem_range, hget]
    rw [getD_eq_getElem?_getD, getElem?_eq_getElem h2, Option.getD_some]

lemma load_store_disjoint {b : Nat}
    (h : a + n ≤ b ∨ b + bs.length ≤ a) : (m.store b bs).load a n = m.load a n := by
  apply load_congr
  intro i hi
  exact store_of_not_mem m (by omega)

lemma store_load (m m' : Mem) (a b n x : Nat) :
    (m.store a (m'.load b n)) x = if a ≤ x ∧ x < a + n then m' (b + (x - a)) else m x := by
  rw [store, length_load]
  split_ifs with h
  · have hlt : x - a < (m'.load b n).length := by
      rw [length_load]
      omega
    rw [getD_eq_getElem?_getD, getElem?_eq_getElem hlt, Option.getD_some]
    simp [load, getElem_map, getElem_range]
  · rfl

end Mem

def leBytes : Nat → Nat → List UInt8
  | 0, _ => []
  | n + 1, x => UInt8.ofNat x :: leBytes n (x / 256)

def leNat : List UInt8 → Nat
  | [] => 0
  | b :: rest => b.toNat + 256 * leNat rest

@[simp] lemma length_leBytes (n x : Nat) : (leBytes n x).length = n := by
  induction n generalizing x with
  | zero => rfl
  | succ n ih => simp [leBytes, ih]

lemma leNat_leBytes (n x : Nat) : leNat (leBytes n x) = x % 256 ^ n := by
  induction n generalizing x with
  | zero => simp [leBytes, leNat, Nat.mod_one]
  | succ n ih =>
    rw [leBytes, leNat, ih, pow_succ, mul_comm (256 ^ n) 256, Nat.mod_mul]
    simp

lemma leNat_leBytes_of_lt (h : x < 256 ^ n) : leNat (leBytes n x) = x := by
  rw [leNat_leBytes, Nat.mod_eq_of_lt h]

lemma leNat_lt (bs : List UInt8) : leNat bs < 256 ^ bs.length := by
  induction bs with
  | nil => simp [leNat]
  | cons b rest ih =>
    have hb := b.toNat_lt
    rw [leNat, List.length_cons, pow_succ]
    omega

lemma leBytes_leNat (bs : List UInt8) : leBytes bs.length (leNat bs) = bs := by
  induction bs with
  | nil => rfl
  | cons b rest ih =>
    have hb := b.toNat_lt
    have hdiv : (b.toNat + 256 * leNat rest) / 256 = leNat rest := by omega
    have hhd : UInt8.ofNat (b.toNat + 256 * leNat rest) = b := by
      apply UInt8.toNat_inj.mp
      simp
    rw [leNat, List.length_cons, leBytes, hdiv, ih, hhd]

namespace Mem

@[simp] lemma load_store_leBytes (m : Mem) (a n x : Nat) :
    (m.store a (leBytes n x)).load a n = leBytes n x :=
  load_store_same m a _ (length_leBytes n x)

lemma load_store_field (m : Mem) {b l : Nat} (h : a + n ≤ b ∨ b + l ≤ a) :
    (m.store b (leBytes l x)).load a n = m.load a n :=
  load_store_disjoint m (by rwa [length_leBytes])

lemma store_field_of_not_mem (m : Mem) {l v : Nat} (h : x < a ∨ a + l ≤ x) :
    (m.store a (leBytes l v)) x = m x :=
  store_of_not_mem m (by rwa [length_leBytes])

end Mem
