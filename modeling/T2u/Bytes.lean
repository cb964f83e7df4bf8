import Mathlib.Data.Nat.ModEq
import Mathlib.Tactic.Ring

/-!
# Numbers as bytes

`leBytes k n` is the `k` low bytes of `n`, least significant first, and `ofLe`
the number a list of bytes stands for.  Big-endian order is the same list
reversed.
-/

abbrev Byte := BitVec 8

instance Byte.lawfulBEq : LawfulBEq Byte := inferInstance

namespace Bytes

/-- The `k` low bytes of `n`, least significant first. -/
def leBytes : Nat → Nat → List Byte
  | 0, _ => []
  | k + 1, n => BitVec.ofNat 8 n :: leBytes k (n / 256)

/-- The number with these bytes, least significant first. -/
def ofLe : List Byte → Nat
  | [] => 0
  | b :: bs => b.toNat + 256 * ofLe bs

/-- The `k` low bytes of `n`, most significant first. -/
def beBytes (k n : Nat) : List Byte := (leBytes k n).reverse

/-- The number with these bytes, most significant first. -/
def ofBe (bs : List Byte) : Nat := ofLe bs.reverse

@[simp] theorem length_leBytes (k n : Nat) : (leBytes k n).length = k := by
  induction k generalizing n with
  | zero => rfl
  | succ k ih => rw [leBytes, List.length_cons, ih]

@[simp] theorem length_beBytes (k n : Nat) : (beBytes k n).length = k := by
  rw [beBytes, List.length_reverse, length_leBytes]

theorem ofLe_leBytes (k n : Nat) : ofLe (leBytes k n) = n % 256 ^ k := by
  induction k generalizing n with
  | zero => rw [leBytes, ofLe, pow_zero, Nat.mod_one]
  | succ k ih =>
    have hmod : n % 256 ^ (k + 1) = n % 256 + 256 * (n / 256 % 256 ^ k) := by
      rw [pow_succ' 256 k, Nat.mod_mul]
    rw [leBytes, ofLe, ih, BitVec.toNat_ofNat, hmod]

theorem ofLe_lt (bs : List Byte) : ofLe bs < 256 ^ bs.length := by
  induction bs with
  | nil => exact Nat.one_pos
  | cons b bs ih =>
    have hb : b.toNat < 256 := b.isLt
    rw [ofLe, List.length_cons, pow_succ]
    omega

theorem leBytes_ofLe (bs : List Byte) : leBytes bs.length (ofLe bs) = bs := by
  induction bs with
  | nil => rfl
  | cons b bs ih =>
    have hb : b.toNat < 256 := b.isLt
    have hdiv : (b.toNat + 256 * ofLe bs) / 256 = ofLe bs := by omega
    have hmod : BitVec.ofNat 8 (b.toNat + 256 * ofLe bs) = b := by
      apply BitVec.eq_of_toNat_eq
      rw [BitVec.toNat_ofNat]
      omega
    rw [List.length_cons, ofLe, leBytes, hdiv, hmod, ih]

theorem ofBe_beBytes (k n : Nat) : ofBe (beBytes k n) = n % 256 ^ k := by
  rw [ofBe, beBytes, List.reverse_reverse, ofLe_leBytes]

theorem leBytes_add (j k n : Nat) : leBytes (j + k) n = leBytes j n ++ leBytes k (n / 256 ^ j) := by
  induction j generalizing n with
  | zero => rw [Nat.zero_add, leBytes, pow_zero, Nat.div_one, List.nil_append]
  | succ j ih =>
    rw [Nat.succ_add, leBytes, ih, leBytes, List.cons_append, pow_succ', Nat.div_div_eq_div_mul]

theorem ofLe_append (as bs : List Byte) : ofLe (as ++ bs) = ofLe as + 256 ^ as.length * ofLe bs := by
  induction as with
  | nil => rw [List.nil_append, ofLe, List.length_nil, pow_zero, one_mul, Nat.zero_add]
  | cons a as ih =>
    rw [List.cons_append, ofLe, ofLe, ih, List.length_cons, pow_succ]
    ring

end Bytes
