import Mathlib.Algebra.Order.Ring.Nat
import TrustedFirmware.Lib.BinarySearch

/-!
# RAS interrupts (`ras_common.c`)

The handler of an interrupt is looked up in a table by binary search. The upper bound of the search
starts at the number of entries, so that an interrupt above all of them is looked up in the memory
behind the table.
-/

namespace TrustedFirmware.Ras

open Lib Nat

/-- What `ras_interrupt_handler` selects, where `none` is the panic, and the entries that it
inspects. The table is the first `numIntrs` entries of an array in memory, of which only the
interrupt numbers matter here; the `int`s of the search do not overflow for a table in memory. -/
def rasInterruptHandler (intrs : Nat → BitVec 32) (numIntrs : Nat) (intrRaw : BitVec 32) :
    Option Nat × List Nat :=
  search (fun i => (intrs i).toNat) intrRaw.toNat (numIntrs + 1) 0 (numIntrs + 1)

/-- `assert_interrupts_sorted` -/
def InterruptsSorted (intrs : Nat → BitVec 32) (numIntrs : Nat) : Prop :=
  ∀ i, i + 1 < numIntrs → (intrs i).toNat < (intrs (i + 1)).toNat

/-- The entry of the interrupt is selected, and the table is not left. -/
structure Handled (intrs : Nat → BitVec 32) (numIntrs : Nat) (intrRaw : BitVec 32)
    (r : Option Nat × List Nat) : Prop where
  selected : ∀ i, r.1 = some i ↔ i < numIntrs ∧ intrs i = intrRaw
  inspected : ∀ i ∈ r.2, i < numIntrs

variable {intrs : Nat → BitVec 32} {numIntrs : Nat}

theorem InterruptsSorted.strictMonoOn (h : InterruptsSorted intrs numIntrs) :
    StrictMonoOn (fun i => (intrs i).toNat) (Set.Iio numIntrs) := by
  intro i _ j hj hij
  induction j, hij using le_induction with
  | base => exact h i hj
  | succ j hij ih => exact (ih (lt_of_succ_lt hj)).trans (h j hj)

/-- **The handler is right** if and only if the interrupt is not above all those of the table. -/
theorem interrupt_handled_iff (hpos : 0 < numIntrs) (hsorted : InterruptsSorted intrs numIntrs)
    (intrRaw : BitVec 32) :
    Handled intrs numIntrs intrRaw (rasInterruptHandler intrs numIntrs intrRaw) ↔
      intrRaw.toNat ≤ (intrs (numIntrs - 1)).toNat := by
  have hmono := hsorted.strictMonoOn
  constructor
  · intro h
    by_contra hgt
    refine lt_irrefl numIntrs (h.inspected _ (search_past (fun j hj => ?_) (zero_le _) le_rfl))
    have hle := (hmono.le_iff_le hj (sub_lt hpos one_pos)).mpr (le_sub_one_of_lt hj)
    exact lt_of_le_of_lt hle (not_le.mp hgt)
  · intro hle
    have hlast := sub_lt hpos one_pos
    refine ⟨fun i => ?_, (search_inside hmono hlast hle hpos le_rfl (sub_le _ _)).1⟩
    exact (search_eq_some_iff hmono hlast hle).trans
      (and_congr_right fun _ => BitVec.toNat_inj)

theorem interrupt_handled_two :
    Handled (fun i => .ofNat 32 (16 * (i + 1))) 2 32
      (rasInterruptHandler (fun i => .ofNat 32 (16 * (i + 1))) 2 32) := by
  refine (interrupt_handled_iff (by decide) (fun i hi => ?_) 32).mpr (by decide)
  obtain rfl : i = 0 := by omega
  decide

/-- A table with the one interrupt 16 is left for the interrupt 32, which is found behind it. -/
theorem interrupt_found_behind :
    rasInterruptHandler (fun i => .ofNat 32 (16 * (i + 1))) 1 32 = (some 1, [0, 1]) := by
  decide

end TrustedFirmware.Ras
