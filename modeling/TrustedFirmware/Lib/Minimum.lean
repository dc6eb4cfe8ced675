import Mathlib.Algebra.Order.Interval.Finset.SuccPred
import Mathlib.Data.Nat.SuccPred
import Mathlib.Order.Interval.Finset.Nat

/-!
# The minimum of a function over a range

As a loop over the range computes it: start from some value and replace it whenever a
smaller one is met.
-/

namespace TrustedFirmware.Lib

variable {α : Type*} [LinearOrder α] [OrderTop α]

/-- The loop over `n` values of `f` from `a` on computes the minimum of its initial
value and of all of them. -/
theorem foldl_min_range' (f : ℕ → α) (n a : ℕ) (init : α) :
    ((List.range' a n).map f).foldl (fun target temp => if temp < target then temp else target)
      init = init ⊓ (Finset.Ico a (a + n)).inf f := by
  induction n generalizing a init with
  | zero => simp
  | succ n ih =>
    rw [List.range'_succ, List.map_cons, List.foldl_cons, ih,
      show a + (n + 1) = a + 1 + n by omega,
      ← Finset.insert_Ico_add_one_left_eq_Ico (show a < a + 1 + n by omega),
      Finset.inf_insert, ← inf_assoc]
    split_ifs with h
    · rw [inf_eq_right.mpr h.le]
    · rw [inf_eq_left.mpr (not_lt.mp h)]

end TrustedFirmware.Lib
