import Mathlib.Order.Interval.Set.Defs
import Mathlib.Order.Monotone.Basic

/-!
# Binary search with inclusive bounds

The loop keeps the entries it looks at. The upper bound is one below `stop`. A table of `n` entries
is searched up to `stop = n + 1`, so that the entry after the last one can be looked at: it is if
all entries are below the key.
-/

namespace TrustedFirmware.Lib

open List

/-- The entry that is found and the entries that are looked at. -/
def search (key : Nat → Nat) (x : Nat) : (fuel start stop : Nat) → Option Nat × List Nat
  | 0, _, _ => (none, [])
  | fuel + 1, start, stop =>
    if start < stop then
      let mid := (stop - 1 + start) / 2
      if x = key mid then (some mid, [mid])
      else
        let r := if x < key mid then search key x fuel start mid
          else search key x fuel (mid + 1) stop
        (r.1, mid :: r.2)
    else (none, [])

/-- The entries in the middle that come before the entry `i`. -/
def before (i : Nat) : (fuel start stop : Nat) → List Nat
  | 0, _, _ => []
  | fuel + 1, start, stop =>
    let mid := (stop - 1 + start) / 2
    if i = mid then []
    else mid :: if i < mid then before i fuel start mid else before i fuel (mid + 1) stop

variable {key : Nat → Nat} {x n fuel start stop i : Nat}

/-- **Any table.** An entry is found if it has the key, and those in the middle before it lead to
it. -/
theorem search_eq_some_iff_before (hfuel : stop - start ≤ fuel) :
    (search key x fuel start stop).1 = some i ↔ start ≤ i ∧ i < stop ∧ key i = x ∧
      ∀ m ∈ before i fuel start stop, if i < m then x < key m else key m < x := by
  induction fuel generalizing start stop with
  | zero => exact iff_of_false nofun fun h => by omega
  | succ fuel ih =>
    unfold search before
    dsimp only
    obtain ⟨mid, hmid⟩ : ∃ mid, mid = (stop - 1 + start) / 2 := ⟨_, rfl⟩
    rw [← hmid]
    have hlow (h : start < stop) := @ih start mid (by omega)
    have hhigh (h : start < stop) := @ih (mid + 1) stop (by omega)
    split_ifs <;> grind

theorem search_sound (h : (search key x fuel start stop).1 = some i) :
    key i = x ∧ i ∈ (search key x fuel start stop).2 := by
  induction fuel generalizing start stop with
  | zero => cases h
  | succ fuel ih =>
    unfold search at h ⊢
    dsimp only at h ⊢
    split_ifs at h ⊢ with hlt heq hless
    · cases h
      exact ⟨heq.symm, mem_singleton_self _⟩
    · exact ⟨(ih h).1, mem_cons_of_mem _ (ih h).2⟩
    · exact ⟨(ih h).1, mem_cons_of_mem _ (ih h).2⟩

/-- The key is not above all entries, which are in order. -/
theorem search_inside (hmono : StrictMonoOn key (Set.Iio n)) {j : Nat} (hj : j < n)
    (hx : x ≤ key j) (hstart : start < n) (hstop : stop ≤ n + 1) (hfuel : stop - start ≤ fuel) :
    (∀ i ∈ (search key x fuel start stop).2, i < n) ∧
      ((search key x fuel start stop).1 = none →
        ∀ i < n, start ≤ i → i < stop → key i ≠ x) := by
  induction fuel generalizing start stop with
  | zero => exact ⟨by simp [search], fun _ i _ _ => by omega⟩
  | succ fuel ih =>
    unfold search
    dsimp only
    obtain ⟨mid, hmid⟩ : ∃ mid, mid = (stop - 1 + start) / 2 := ⟨_, rfl⟩
    have hlt : mid < n := by omega
    rw [← hmid]
    split_ifs with hin heq hless
    · exact ⟨fun i hi => by rwa [mem_singleton.mp hi], by simp⟩
    · obtain ⟨hall, hnone⟩ := @ih start mid hstart (by omega) (by omega)
      refine ⟨forall_mem_cons.mpr ⟨hlt, hall⟩, fun h i hi hle _ hkey => ?_⟩
      -- What is below the entry in the middle is before it.
      exact hnone h i hi hle ((hmono.lt_iff_lt hi hlt).mp (hkey ▸ hless)) hkey
    · have hgt : key mid < x := by omega
      have hmj := (hmono.lt_iff_lt hlt hj).mp (lt_of_lt_of_le hgt hx)
      obtain ⟨hall, hnone⟩ := @ih (mid + 1) stop (lt_of_le_of_lt hmj hj) hstop (by omega)
      refine ⟨forall_mem_cons.mpr ⟨hlt, hall⟩, fun h i hi _ hstop hkey => ?_⟩
      exact hnone h i hi ((hmono.lt_iff_lt hlt hi).mp (hkey ▸ hgt)) hstop hkey
    · exact ⟨by simp, fun _ i _ _ => by omega⟩

/-- The search finds the entry of a key that is not above all entries. -/
theorem search_eq_some_iff (hmono : StrictMonoOn key (Set.Iio n)) {j : Nat} (hj : j < n)
    (hx : x ≤ key j) : (search key x (n + 1) 0 (n + 1)).1 = some i ↔ i < n ∧ key i = x := by
  obtain ⟨hall, hnone⟩ :=
    search_inside hmono hj hx (Nat.zero_lt_of_lt hj) le_rfl (Nat.sub_le (n + 1) 0)
  constructor
  · intro h
    obtain ⟨hkey, hmem⟩ := search_sound h
    exact ⟨hall i hmem, hkey⟩
  · rintro ⟨hi, hkey⟩
    cases hres : (search key x (n + 1) 0 (n + 1)).1 with
    | none => exact absurd hkey (hnone hres i hi (Nat.zero_le i) (by omega))
    | some k =>
      obtain ⟨hkey', hmem⟩ := search_sound hres
      rw [hmono.injOn (hall k hmem) hi (hkey'.trans hkey.symm)]

/-- A key that is above all entries takes the search past them. -/
theorem search_past (hx : ∀ j < n, key j < x) (hstart : start ≤ n) (hfuel : n + 1 - start ≤ fuel) :
    n ∈ (search key x fuel start (n + 1)).2 := by
  induction fuel generalizing start with
  | zero => omega
  | succ fuel ih =>
    unfold search
    dsimp only
    obtain ⟨mid, hmid⟩ : ∃ mid, mid = (n + 1 - 1 + start) / 2 := ⟨_, rfl⟩
    rw [if_pos (Nat.lt_succ_of_le hstart), ← hmid]
    rcases Nat.lt_or_eq_of_le hstart with hlt | heq
    · have hless := hx mid (by omega)
      rw [if_neg (ne_of_gt hless), if_neg (not_lt_of_gt hless)]
      exact mem_cons_of_mem _ (ih (by omega) (by omega))
    · obtain rfl : mid = n := by omega
      split_ifs <;> exact mem_cons_self

end TrustedFirmware.Lib
