import Mathlib.Data.Fintype.Card
import TrustedFirmware.Lib.Run

/-!
# The count of open FIP devices (`io_fip.c`)

A device that is not open has a specifier of zero, and closing it looks for that specifier in the
pool: it is always found, so that the count goes down with every close, also of a device that has
been closed before.
-/

namespace TrustedFirmware.Fip

open Lib Option Function

/-- `state_pool` and `fip_dev_count`, for `n` devices, which is `MAX_FIP_DEVICES`. -/
structure Devices (n : Nat) where
  devSpec : Fin n → BitVec 64
  fipDevCount : BitVec 32

variable {n : Nat} {d : Devices n} {spec : BitVec 64} {i : Fin n}

/-- `find_first_fip_state` -/
def Devices.findFirstFipState (d : Devices n) (spec : BitVec 64) : Option (Fin n) :=
  (List.finRange n).find? (d.devSpec · = spec)

/-- `fip_dev_open`: the device, or none for -ENOMEM. -/
def Devices.fipDevOpen (d : Devices n) (spec : BitVec 64) :
    Option (Devices n × Option (Fin n)) :=
  if 1 < n ∧ spec = 0 then none
  else if d.fipDevCount.toNat < n then
    (d.findFirstFipState 0).map fun i => (⟨update d.devSpec i spec, d.fipDevCount + 1⟩, some i)
  else some (d, none)

/-- `fip_dev_close` -/
def Devices.fipDevClose (d : Devices n) (i : Fin n) : Devices n :=
  match d.findFirstFipState (d.devSpec i) with
  | none => d
  | some _ => ⟨update d.devSpec i 0, d.fipDevCount - 1⟩

inductive DevCall (n : Nat)
  | open (spec : BitVec 64)
  | close (i : Fin n)

/-- The devices, with those that are open. -/
structure DevState (n : Nat) where
  devices : Devices n
  opened : Finset (Fin n)

/-- No device is open. -/
def DevState.boot (n : Nat) : DevState n := ⟨⟨fun _ => 0, 0⟩, ∅⟩

/-- One call. -/
def DevState.step (s : DevState n) : DevCall n → Option (DevState n)
  | .open spec => (s.devices.fipDevOpen spec).map fun r =>
    ⟨r.1, r.2.elim s.opened (insert · s.opened)⟩
  | .close i => some ⟨s.devices.fipDevClose i, s.opened.erase i⟩

/-- Only open devices are closed. -/
def ClosesOpen (s : DevState n) : DevCall n → Prop
  | .open _ => True
  | .close i => i ∈ s.opened

instance decidableClosesOpen (s : DevState n) : ∀ call, Decidable (ClosesOpen s call)
  | .open _ => .isTrue trivial
  | .close i => inferInstanceAs (Decidable (i ∈ s.opened))

variable {s s' : DevState n}

/-- The count is right, and a device that is not open is found by its specifier. -/
structure DevState.Ok (s : DevState n) : Prop where
  count : s.devices.fipDevCount.toNat = s.opened.card
  closed : ∀ i ∉ s.opened, s.devices.devSpec i = 0
  opened : 1 < n → ∀ i ∈ s.opened, s.devices.devSpec i ≠ 0

theorem exists_findFirstFipState (hi : d.devSpec i = spec) :
    ∃ j, d.findFirstFipState spec = some j ∧ d.devSpec j = spec := by
  cases hf : d.findFirstFipState spec with
  | none => exact absurd hi (by simpa using List.find?_eq_none.mp hf i (List.mem_finRange i))
  | some j => exact ⟨j, rfl, by simpa using List.find?_some hf⟩

/-- A device that is not open is found, unless all of them are. -/
theorem DevState.Ok.find (h : s.Ok) (hlt : s.opened.card < n) :
    ∃ i, s.devices.findFirstFipState 0 = some i ∧ i ∉ s.opened := by
  obtain ⟨j, hj⟩ : ∃ j, j ∉ s.opened := by
    by_contra! hall
    rw [Finset.eq_univ_iff_forall.mpr hall, Finset.card_fin] at hlt
    exact lt_irrefl _ hlt
  obtain ⟨i, hf, hzero⟩ := exists_findFirstFipState (h.closed j hj)
  refine ⟨i, hf, fun hi => ?_⟩
  by_cases hmax : 1 < n
  · exact h.opened hmax i hi hzero
  · have := Finset.card_pos.mpr ⟨i, hi⟩
    omega

/-- **One call** of a run in which only open devices are closed. -/
theorem DevState.Ok.step (hmax : n < 2 ^ 32) (h : s.Ok) {call : DevCall n}
    (hcl : ClosesOpen s call) (hs : s.step call = some s') : s'.Ok := by
  cases call with
  | «open» spec =>
    obtain ⟨⟨d, r⟩, hd, rfl⟩ := map_eq_some_iff.mp hs
    unfold Devices.fipDevOpen at hd
    split_ifs at hd with hspec hlt
    · obtain ⟨i, hi, hnot⟩ := h.find (h.count ▸ hlt)
      rw [hi] at hd
      cases hd
      refine ⟨?_, fun j hj => ?_, fun hone j hj => ?_⟩
      · simp only [elim_some, Finset.card_insert_of_notMem hnot, ← h.count]
        bv_omega
      · simp only [elim_some, Finset.mem_insert, not_or] at hj
        simpa [hj.1] using h.closed j hj.2
      · by_cases hji : j = i
        · simpa [hji] using fun h0 => hspec ⟨hone, h0⟩
        · simp only [elim_some, Finset.mem_insert, hji, false_or] at hj
          simpa [hji] using h.opened hone j hj
    · cases hd
      exact h
  | close i =>
    cases hs
    obtain ⟨j, hj, -⟩ := exists_findFirstFipState (rfl : s.devices.devSpec i = _)
    have hpos := Finset.card_pos.mpr ⟨i, hcl⟩
    rw [Devices.fipDevClose, hj]
    refine ⟨?_, fun k hk => ?_, fun hone k hk => ?_⟩
    · simp only [Finset.card_erase_of_mem hcl, ← h.count] at hpos ⊢
      bv_omega
    · by_cases hki : k = i
      · simp [hki]
      · simpa [hki] using h.closed k fun hmem => hk (Finset.mem_erase.mpr ⟨hki, hmem⟩)
    · obtain ⟨hki, hmem⟩ := Finset.mem_erase.mp hk
      simpa [hki] using h.opened hone k hmem

/-- **The count is the number of open devices**, and one more can be opened exactly when it is below
the maximum, in every run in which only open devices are closed. -/
theorem devices_counted (hmax : n < 2 ^ 32) {calls : List (DevCall n)}
    (hcl : Along DevState.step ClosesOpen (.boot n) calls)
    (hrun : run DevState.step (.boot n) calls = some s) :
    s.devices.fipDevCount.toNat = s.opened.card ∧
    ∀ spec, (1 < n → spec ≠ 0) →
      ((∃ d i, s.devices.fipDevOpen spec = some (d, some i)) ↔ s.opened.card < n) := by
  have h : s.Ok := run_invariant_along (fun _ _ _ h hc hs => h.step hmax hc hs)
    ⟨rfl, fun _ _ => rfl, fun _ _ hi => absurd hi (Finset.notMem_empty _)⟩ hcl hrun
  refine ⟨h.count, fun spec hspec => ?_⟩
  rw [Devices.fipDevOpen, if_neg fun hbad => hspec hbad.1 hbad.2, h.count]
  by_cases hlt : s.opened.card < n
  · obtain ⟨i, hi, -⟩ := h.find hlt
    exact ⟨fun _ => hlt, fun _ => ⟨_, i, by rw [if_pos hlt, hi]; rfl⟩⟩
  · simp [hlt]

/-- A device is closed and opened again. -/
theorem devices_counted_reopened : ∃ s, run DevState.step (.boot 2)
      [.open 5, .open 6, .close 0, .open 7] = some s ∧ s.opened.card = 2 ∧
    s.devices.fipDevCount.toNat = s.opened.card ∧
    ¬ ∃ d i, s.devices.fipDevOpen 8 = some (d, some i) := by
  refine exists_some_imp (q := fun s => s.opened.card = 2) (by decide) fun s hs hcard => ?_
  obtain ⟨hcount, hopen⟩ := devices_counted (by decide) (by decide) hs
  refine ⟨hcard, hcount, fun h => ?_⟩
  have hlt := (hopen 8 fun _ => by decide).mp h
  omega

/-- After the second close of a device it cannot be opened any more. -/
theorem count_wraps : ∃ s, run DevState.step (.boot 1) [.open 5, .close 0, .close 0] = some s ∧
    s.opened = ∅ ∧ s.devices.fipDevCount = 0xFFFFFFFF ∧
    (s.devices.fipDevOpen 5).any (·.2 = none) :=
  ⟨_, rfl, by decide, by decide, by decide⟩

end TrustedFirmware.Fip
