import Mathlib.Data.List.Induction
import Mathlib.Tactic.Ring
import TxStream.Wire.Header

/-!
Big-endian numbers:

* `bigEndian_append`: two byte strings in a row spell the number of the first, shifted by the bytes
  of the second, plus the number of the second;
* `bigEndian_lt`: `n` bytes spell a number below `256 ^ n`;
* `bigEndianBytes`: a number written in so many bytes, which spell it if it fits
  (`bigEndian_bigEndianBytes`), and every byte string is written so (`bigEndianBytes_bigEndian`).
-/

namespace TxStream

/-- A number spelled after another one shifts it by the bytes of its own. -/
theorem foldl_bigEndian (n : Nat) (b : Bytes) :
    b.foldl (fun n x => 256 * n + x.toNat) n = n * 256 ^ b.length + bigEndian b := by
  induction b generalizing n with
  | nil => simp [bigEndian]
  | cons x b ih =>
    have h : bigEndian (x :: b) = x.toNat * 256 ^ b.length + bigEndian b := by
      rw [bigEndian, List.foldl_cons, ih, Nat.mul_zero, Nat.zero_add]
    rw [h, List.foldl_cons, ih, List.length_cons, pow_succ]
    ring

theorem bigEndian_append (a b : Bytes) :
    bigEndian (a ++ b) = bigEndian a * 256 ^ b.length + bigEndian b := by
  rw [bigEndian, List.foldl_append, foldl_bigEndian]
  rfl

theorem bigEndian_lt (b : Bytes) : bigEndian b < 256 ^ b.length := by
  induction b with
  | nil => decide
  | cons x b ih =>
    have hx : x.toNat < 256 := x.toNat_lt
    have h := bigEndian_append [x] b
    rw [List.singleton_append] at h
    rw [h, List.length_cons, pow_succ, show bigEndian [x] = x.toNat by simp [bigEndian]]
    calc x.toNat * 256 ^ b.length + bigEndian b
        < x.toNat * 256 ^ b.length + 256 ^ b.length := Nat.add_lt_add_left ih _
      _ = (x.toNat + 1) * 256 ^ b.length := (Nat.succ_mul ..).symm
      _ ≤ 256 * 256 ^ b.length := Nat.mul_le_mul_right _ hx
      _ = 256 ^ b.length * 256 := Nat.mul_comm ..

/-- A number written in `k` bytes, most significant first. What does not fit is cut off. -/
def bigEndianBytes : Nat → Nat → Bytes
  | 0, _ => []
  | k + 1, n => bigEndianBytes k (n / 256) ++ [UInt8.ofNat (n % 256)]

@[simp] theorem length_bigEndianBytes (k n : Nat) : (bigEndianBytes k n).length = k := by
  induction k generalizing n with
  | zero => rfl
  | succ k ih => rw [bigEndianBytes, List.length_append, ih, List.length_singleton]

/-- The bytes in which a number is written spell it, if there are enough of them. -/
theorem bigEndian_bigEndianBytes {k n : Nat} (h : n < 256 ^ k) :
    bigEndian (bigEndianBytes k n) = n := by
  induction k generalizing n with
  | zero =>
    rw [pow_zero, Nat.lt_one_iff] at h
    rw [h]
    rfl
  | succ k ih =>
    have hdiv : n / 256 < 256 ^ k := Nat.div_lt_of_lt_mul (by rwa [← Nat.pow_succ'])
    have hmod : (UInt8.ofNat (n % 256)).toNat = n % 256 :=
      Nat.mod_eq_of_lt (Nat.mod_lt n (by decide))
    rw [bigEndianBytes, bigEndian_concat, ih hdiv, hmod, Nat.div_add_mod]

/-- A byte string is the number that it spells, written in as many bytes. -/
theorem bigEndianBytes_bigEndian (b : Bytes) : bigEndianBytes b.length (bigEndian b) = b := by
  induction b using List.reverseRecOn with
  | nil => rfl
  | append_singleton b x ih =>
    have hx : x.toNat < 256 := x.toNat_lt
    have hdiv : (256 * bigEndian b + x.toNat) / 256 = bigEndian b := by omega
    have hmod : (256 * bigEndian b + x.toNat) % 256 = x.toNat := by omega
    rw [List.length_append, List.length_singleton, bigEndianBytes, bigEndian_concat, hdiv, hmod,
      ih, UInt8.ofNat_toNat]

end TxStream
