import Mathlib.Algebra.Order.Ring.Nat
import Mathlib.Data.List.Basic

/-!
# Numbers as bytes, the least significant one first
-/

namespace TrustedFirmware.Lib

/-- The number that bytes stand for. -/
def leValue : List UInt8 → Nat
  | [] => 0
  | b :: bs => b.toNat + 256 * leValue bs

/-- The number in `n` bytes. -/
def leBytes : Nat → Nat → List UInt8
  | 0, _ => []
  | n + 1, v => UInt8.ofNat v :: leBytes n (v / 256)

@[simp] theorem length_leBytes (n v : Nat) : (leBytes n v).length = n := by
  induction n generalizing v with
  | zero => rfl
  | succ n ih => simp [leBytes, ih]

theorem leValue_leBytes {n v : Nat} (hv : v < 256 ^ n) : leValue (leBytes n v) = v := by
  induction n generalizing v with
  | zero =>
    rw [pow_zero, Nat.lt_one_iff] at hv
    rw [hv]
    rfl
  | succ n ih =>
    have hdiv : v / 256 < 256 ^ n := by
      exact Nat.div_lt_of_lt_mul (by rwa [mul_comm])
    have hbyte : (UInt8.ofNat v).toNat = v % 256 := by simp
    rw [leBytes, leValue, ih hdiv, hbyte]
    exact Nat.mod_add_div v 256

end TrustedFirmware.Lib
