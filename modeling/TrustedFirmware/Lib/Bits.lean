import Mathlib.Data.Nat.Bitwise

/-!
# Masks on machine words

A mask of low-order ones tests divisibility by a power of two and its complement rounds
down to one, and a word can be put together from two others by a mask that says which
bits come from where. A word whose lowest bit is set last and cleared first is a stack
of positions.
-/

namespace TrustedFirmware.Lib

open BitVec List

variable {w k : Nat}

theorem toNat_lowMask (hk : k ≤ w) : (BitVec.ofNat w (2 ^ k - 1)).toNat = 2 ^ k - 1 := by
  have hpow := Nat.pow_le_pow_right (show 0 < 2 by decide) hk
  have hpos := Nat.two_pow_pos k
  exact Nat.mod_eq_of_lt (by omega)

theorem and_lowMask_eq_zero (hk : k ≤ w) (x : BitVec w) :
    x &&& BitVec.ofNat w (2 ^ k - 1) = 0#w ↔ 2 ^ k ∣ x.toNat := by
  rw [← toNat_inj, toNat_and, toNat_lowMask hk, Nat.and_two_pow_sub_one_eq_mod,
    toNat_zero, Nat.dvd_iff_mod_eq_zero]

theorem toNat_and_not_lowMask (hk : k ≤ w) (x : BitVec w) :
    (x &&& ~~~ BitVec.ofNat w (2 ^ k - 1)).toNat = x.toNat / 2 ^ k * 2 ^ k := by
  refine Nat.eq_of_testBit_eq fun i => ?_
  have hmask : (BitVec.ofNat w (2 ^ k - 1)).getLsbD i = (decide (i < k) : Bool) := by
    rw [← testBit_toNat, toNat_lowMask hk, Nat.testBit_two_pow_sub_one]
  rw [testBit_toNat, getLsbD_and, getLsbD_not, hmask,
    Nat.testBit_mul_two_pow, Nat.testBit_div_two_pow]
  by_cases hik : i < k
  · simp [hik]
  · have hki : k ≤ i := not_lt.mp hik
    rw [Nat.sub_add_cancel hki, testBit_toNat]
    by_cases hiw : i < w
    · simp [hki, hiw]
    · simp [getLsbD_of_ge x i (not_lt.mp hiw)]

variable {x y c m : BitVec w}

/-- Outside of the mask, a selection has the bits of the first word. -/
theorem select_and_of_disjoint (h : c &&& m = 0#w) :
    (x &&& ~~~ c ||| (y &&& c)) &&& m = x &&& m := by
  refine eq_of_getLsbD_eq fun i hi => ?_
  have hbit := congrArg (getLsbD · i) h
  simp only [getLsbD_and, getLsbD_zero] at hbit
  simp only [getLsbD_and, getLsbD_or, getLsbD_not, hi]
  generalize c.getLsbD i = a at hbit ⊢
  generalize m.getLsbD i = b at hbit ⊢
  cases a <;> cases b <;> simp_all

/-- Inside of the mask, it has those of the second. -/
theorem select_and_of_subset (h : c &&& m = m) : (x &&& ~~~ c ||| (y &&& c)) &&& m = y &&& m := by
  refine eq_of_getLsbD_eq fun i hi => ?_
  have hbit := congrArg (getLsbD · i) h
  simp only [getLsbD_and] at hbit
  simp only [getLsbD_and, getLsbD_or, getLsbD_not, hi]
  generalize c.getLsbD i = a at hbit ⊢
  generalize m.getLsbD i = b at hbit ⊢
  cases a <;> cases b <;> simp_all

theorem and_twoPow_eq_ite (x : BitVec w) (i : Nat) :
    x &&& twoPow w i = if x &&& twoPow w i ≠ 0#w then twoPow w i else 0#w := by
  rw [and_twoPow]
  split <;> simp_all

variable {n : Nat}

/-- The position of the lowest bit that is set. -/
def lowestBit (x : BitVec w) : Option Nat := (range w).find? (x.getLsbD ·)

theorem lowestBit_eq_some :
    lowestBit x = some n ↔ n < w ∧ x.getLsbD n = true ∧ ∀ i < n, x.getLsbD i = false := by
  simp only [lowestBit, find?_range_eq_some, mem_range, Bool.not_eq_true_eq_eq_false]
  constructor
  · intro ⟨hbit, hn, hlow⟩
    exact ⟨hn, hbit, hlow⟩
  · intro ⟨hn, hbit, hlow⟩
    exact ⟨hbit, hn, hlow⟩

theorem lowestBit_eq_none : lowestBit x = none ↔ x = 0#w := by
  simp only [lowestBit, find?_eq_none, mem_range, Bool.not_eq_true]
  constructor
  · intro h
    refine eq_of_getLsbD_eq fun i hi => ?_
    simpa using h i hi
  · intro h i _
    simp [h]

theorem lowestBit_or_twoPow (hn : n < w) (hx : ∀ i ≤ n, x.getLsbD i = false) :
    lowestBit (x ||| twoPow w n) = some n := by
  refine lowestBit_eq_some.mpr ⟨hn, ?_, fun i hi => ?_⟩
  · simp [hn]
  · simp [hx i hi.le, ne_of_gt hi]

theorem clear_lowestBit (hn : n < w) (hx : ∀ i ≤ n, x.getLsbD i = false) :
    (x ||| twoPow w n) &&& ((x ||| twoPow w n) - 1#w) = x := by
  have hpow : 2 ^ n < 2 ^ w := Nat.pow_lt_pow_right (by decide) hn
  have hpos := Nat.two_pow_pos n
  have hzero : x.toNat % 2 ^ (n + 1) = 0 := by
    refine Nat.eq_of_testBit_eq fun i => ?_
    rw [Nat.testBit_mod_two_pow, Nat.zero_testBit]
    by_cases hi : i < n + 1
    · rw [testBit_toNat, hx i (Nat.le_of_lt_succ hi), Bool.and_false]
    · simp [hi]
  obtain ⟨a, ha⟩ := Nat.dvd_of_mod_eq_zero hzero
  have hlt : 2 ^ n < 2 ^ (n + 1) := Nat.pow_lt_pow_right (by decide) (Nat.lt_succ_self n)
  have hset : (x ||| twoPow w n).toNat = 2 ^ (n + 1) * a + 2 ^ n := by
    rw [toNat_or, toNat_twoPow, Nat.mod_eq_of_lt hpow, ha, Nat.two_pow_add_eq_or_of_lt hlt]
  have hone : (1#w).toNat = 1 := by
    rw [toNat_ofNat, Nat.mod_eq_of_lt (by omega)]
  have hpred : ((x ||| twoPow w n) - 1#w).toNat = 2 ^ (n + 1) * a + (2 ^ n - 1) := by
    rw [toNat_sub_of_le (le_def.mpr (by omega)), hset, hone, Nat.add_sub_assoc hpos]
  refine eq_of_toNat_eq ?_
  rw [toNat_and, hset, hpred, Nat.two_pow_add_eq_or_of_lt hlt,
    Nat.two_pow_add_eq_or_of_lt (by omega), ← Nat.or_and_distrib_left,
    Nat.and_two_pow_sub_one_eq_mod, Nat.mod_self, Nat.or_zero, ha]

end TrustedFirmware.Lib
