import Mathlib.Algebra.Order.BigOperators.Group.Finset

/-!
# Tallies

Sums over a finite family of values, one of which changes: what the members of a family hold
together, and how many of them are at a given place. Then counts in a list, from which an element is
taken.
-/

namespace TrustedFirmware.Lib

open Function Finset

variable {ι α β : Type} [Fintype ι] [DecidableEq ι] [DecidableEq β]

theorem sum_update (f : α → Nat) (g : ι → α) (i : ι) (a : α) :
    (∑ j, f (update g i a j)) + f (g i) = (∑ j, f (g j)) + f a := by
  have hrest : ∑ j ∈ univ.erase i, f (update g i a j) =
      ∑ j ∈ univ.erase i, f (g j) := by
    refine sum_congr rfl fun j hj => ?_
    rw [update_of_ne (ne_of_mem_erase hj)]
  rw [← add_sum_erase _ _ (mem_univ i),
    ← add_sum_erase _ (fun j => f (g j)) (mem_univ i), hrest, update_self]
  omega

/-- The number of members with the label `b`. -/
def tally (label : α → Option β) (g : ι → α) (b : β) : Nat :=
  ∑ i, if label (g i) = some b then 1 else 0

variable {label : α → Option β} {g : ι → α} {i : ι} {a : α} {b : β}

theorem tally_update (label : α → Option β) (g : ι → α) (i : ι) (a : α) (b : β) :
    tally label (update g i a) b + (if label (g i) = some b then 1 else 0) =
      tally label g b + (if label a = some b then 1 else 0) :=
  sum_update (fun x => if label x = some b then 1 else 0) g i a

omit [DecidableEq ι] in
theorem tally_pos (h : label (g i) = some b) : 0 < tally label g b := by
  refine lt_of_lt_of_le ?_ (single_le_sum (fun _ _ => Nat.zero_le _) (mem_univ i))
  rw [if_pos h]
  exact Nat.one_pos

omit [DecidableEq ι] in
theorem tally_eq_zero (h : ∀ i, label (g i) ≠ some b) : tally label g b = 0 :=
  sum_eq_zero fun i _ => if_neg (h i)

theorem tally_unique {j : ι} (hone : tally label g b ≤ 1)
    (hi : label (g i) = some b) (hj : label (g j) = some b) : i = j := by
  by_contra hne
  have htwo : ∑ x ∈ {i, j}, (if label (g x) = some b then 1 else 0) = 2 := by
    rw [sum_pair hne, if_pos hi, if_pos hj]
  have hle : ∑ x ∈ {i, j}, (if label (g x) = some b then 1 else 0) ≤ tally label g b :=
    sum_le_sum_of_subset (subset_univ _)
  omega

theorem countP_eraseP {l : List α} {p : α → Bool} (h : ∃ a ∈ l, p a = true) :
    ∃ a ∈ l, p a = true ∧
      ∀ q : α → Bool, l.countP q = (l.eraseP p).countP q + if q a = true then 1 else 0 := by
  obtain ⟨a, ha, hp⟩ := h
  obtain ⟨b, l₁, l₂, -, hb, hl, hera⟩ := List.exists_of_eraseP ha hp
  refine ⟨b, by simp [hl], hb, fun q => ?_⟩
  rw [hera, hl, List.countP_append, List.countP_append, List.countP_cons]
  omega

end TrustedFirmware.Lib
