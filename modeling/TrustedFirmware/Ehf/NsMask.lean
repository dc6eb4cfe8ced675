import TrustedFirmware.Ehf.Priorities

/-!
# The priority mask of the normal world

The mask is saved in two places: in `ns_pri_mask` when the normal world is left, and in
`init_pri_mask` when the first priority is activated. Either may be skipped, depending
on the other, and a zero in `ns_pri_mask` means that nothing is stashed.

What matters is the mask that will be in force when no priority is active any more
(`EhfState.baseMask`): no activation and no deactivation changes it. In any order of
world switches, activations and `ehf_allow_ns_preemption`, it is the one of the normal
world while nothing is stashed and the highest non-secure priority otherwise
(`ns_mask_kept`).
-/

namespace TrustedFirmware.Ehf

open Lib Option

/-! ### World switches -/

/-- The PE with what has happened on it: whether secure execution is in progress, the
mask that was in force when the normal world was last left with no active priority,
whether that mask is stashed (it has not been put back since, by
`ehf_allow_ns_preemption` or on the way to the normal world), and whether the normal
world has set another one since. -/
structure Watched where
  ehf : EhfState
  secure : Bool
  left : U8
  stashed : Bool
  reprogrammed : Bool

/-- What happens on the PE. A world switch comes with the running priority. -/
inductive PeEvent
  | exited (runPri : U8)
  | entering (runPri : U8)
  | allowNsPreemption (preemptRetCode : U64)
  | activate (runPri : U8) (priority : Nat)
  | deactivate (runPri : U8) (priority : Nat)
  /-- The normal world sets its mask. -/
  | program (mask : U8)

/-- One event; world switches are made with a running priority outside the secure range.
The normal world reaches the mask register only while the mask is in its own range, and
sets only masks in that range. -/
def Watched.step (x : ExceptionData) (w : Watched) : PeEvent → Option Watched
  | .exited runPri =>
    if isPriSecure runPri then none
    else (ehfExitedNormalWorld w.ehf runPri).map fun s =>
      if hasValidPriActivations w.ehf then { w with ehf := s, secure := true }
      else ⟨s, true, w.ehf.pmr, true, false⟩
  | .entering runPri =>
    if isPriSecure runPri then none
    else (ehfEnteringNormalWorld w.ehf runPri).map fun s =>
      { w with ehf := s, secure := false, stashed := w.stashed && hasValidPriActivations w.ehf }
  | .allowNsPreemption preemptRetCode =>
    (ehfAllowNsPreemption w.ehf preemptRetCode).map fun s => { w with ehf := s, stashed := false }
  | .activate runPri priority =>
    (ehfActivatePriority x w.ehf runPri priority).map fun s => { w with ehf := s }
  | .deactivate runPri priority =>
    (ehfDeactivatePriority x w.ehf runPri priority).map fun s => { w with ehf := s }
  | .program mask =>
    if w.secure ∨ isPriSecure w.ehf.pmr ∨ isPriSecure mask then none
    else some { w with ehf := { w.ehf with pmr := mask }, reprogrammed := true }

/-- No priority is active and nothing is stashed. -/
def Watched.start (s : EhfState) (secure : Bool) : Watched := ⟨s, secure, s.pmr, false, false⟩

/-! ### The invariant -/

/-- The mask without the activations. -/
def EhfState.baseMask (s : EhfState) : U8 :=
  if s.activePriBits = 0 then s.pmr else s.initPriMask

/-- What is stashed is the mask that the normal world was left with, and the mask in
force is the highest non-secure priority until it is put back. -/
structure Watched.Ok (w : Watched) : Prop where
  stashed : w.stashed = true ↔ w.ehf.nsPriMask ≠ 0
  left : w.stashed = true → w.ehf.nsPriMask = w.left
  base : w.reprogrammed = false →
    w.ehf.baseMask = if w.stashed then gicHighestNsPriority else w.left

variable {x : ExceptionData} {s s' : EhfState} {w w' : Watched} {runPri : U8} {priority : Nat}

theorem hasValidPriActivations_eq_false :
    hasValidPriActivations s = false ↔ s.activePriBits = 0 := by
  simp [hasValidPriActivations]

/-- **Activations do not change the mask below them.** -/
theorem baseMask_activate (h : ehfActivatePriority x s runPri priority = some s') :
    s'.baseMask = s.baseMask ∧ s'.nsPriMask = s.nsPriMask := by
  obtain ⟨idx, hidx, -, -, hlow, rfl⟩ := ehfActivatePriority_eq_some h
  refine ⟨?_, rfl⟩
  have hne : s.activePriBits ||| priBit idx ≠ 0 := by
    intro h0
    have hsome := (lowestBit_priBit hidx hlow).1
    rw [lowestBit_eq_none.mpr h0] at hsome
    cases hsome
  exact if_neg hne

/-- **Deactivations neither.** -/
theorem baseMask_deactivate (h : ehfDeactivatePriority x s runPri priority = some s') :
    s'.baseMask = s.baseMask ∧ s'.nsPriMask = s.nsPriMask := by
  obtain ⟨idx, -, -, hcur, rfl⟩ := ehfDeactivatePriority_eq_some h
  refine ⟨?_, rfl⟩
  have hne : s.activePriBits ≠ 0 := by
    intro h0
    rw [getPeHighestActiveIdx_eq_none.mpr h0] at hcur
    cases hcur
  unfold EhfState.baseMask
  split_ifs <;> rfl

theorem ne_zero_of_not_secure {pri : U8} (h : ¬ isPriSecure pri = true) : pri ≠ 0 := by
  intro h0
  rw [h0] at h
  exact h (by decide)

/-- An event that changes only what the activations change. -/
theorem Watched.Ok.keep (h : w.Ok) (hbase : s'.baseMask = w.ehf.baseMask)
    (hns : s'.nsPriMask = w.ehf.nsPriMask) (secure : Bool) :
    Watched.Ok { w with ehf := s', secure := secure } := by
  refine ⟨?_, fun hs => ?_, fun hr => ?_⟩
  · rw [hns]
    exact h.stashed
  · rw [hns]
    exact h.left hs
  · rw [hbase]
    exact h.base hr

theorem Watched.Ok.restore (h : w.Ok) (hact : w.ehf.activePriBits = 0)
    (hns : w.ehf.nsPriMask ≠ 0) (secure : Bool) (nsX0 : U64) :
    Watched.Ok ⟨{ w.ehf with nsX0 := nsX0, pmr := w.ehf.nsPriMask, nsPriMask := 0 }, secure, w.left,
      false, w.reprogrammed⟩ := by
  refine ⟨by simp, by simp, fun _ => ?_⟩
  unfold EhfState.baseMask
  rw [if_pos hact]
  exact h.left (h.stashed.mpr hns)

/-- **Leaving the normal world.** -/
theorem Watched.Ok.exited (h : w.Ok) (hstep : w.step x (.exited runPri) = some w') : w'.Ok := by
  unfold Watched.step at hstep
  dsimp only at hstep
  split at hstep
  · cases hstep
  rename_i hpri
  obtain ⟨s, hs, rfl⟩ := map_eq_some_iff.mp hstep
  unfold ehfExitedNormalWorld at hs
  rw [if_neg hpri] at hs
  cases hact : hasValidPriActivations w.ehf with
  | true =>
    rw [if_pos hact] at hs
    cases hs
    exact h.keep rfl rfl true
  | false =>
    rw [hact, if_neg (by decide)] at hs
    split_ifs at hs with hns hmask
    cases hs
    refine ⟨?_, fun _ => rfl, fun _ => ?_⟩
    · exact iff_of_true rfl (ne_zero_of_not_secure hmask)
    · exact if_pos (hasValidPriActivations_eq_false.mp hact)

/-- **Entering it.** If no priority is active, nothing is stashed any more. -/
theorem Watched.Ok.entering (h : w.Ok) (hstep : w.step x (.entering runPri) = some w') :
    w'.Ok ∧ (w'.ehf.activePriBits = 0 → w'.stashed = false ∧ w'.left = w.left ∧
      w'.reprogrammed = w.reprogrammed ∧ (w.stashed = true → w'.ehf.pmr = w.left)) := by
  unfold Watched.step at hstep
  dsimp only at hstep
  split_ifs at hstep with hpri
  obtain ⟨s, hs, rfl⟩ := map_eq_some_iff.mp hstep
  unfold ehfEnteringNormalWorld at hs
  rw [if_neg hpri] at hs
  cases hact : hasValidPriActivations w.ehf with
  | true =>
    rw [if_pos hact] at hs
    cases hs
    rw [Bool.and_true]
    refine ⟨h.keep rfl rfl false, fun h0 => ?_⟩
    rw [hasValidPriActivations_eq_false.mpr h0] at hact
    cases hact
  | false =>
    have hzero := hasValidPriActivations_eq_false.mp hact
    rw [hact, if_neg (by decide)] at hs
    rw [Bool.and_false]
    split at hs
    next hns =>
      cases hs
      have hsta : w.stashed = false := by
        rw [Bool.eq_false_iff]
        exact fun hyes => h.stashed.mp hyes hns
      have hkeep := h.keep rfl rfl false
      rw [hsta] at hkeep ⊢
      exact ⟨hkeep, fun _ => ⟨rfl, rfl, rfl, fun hyes => nomatch hyes⟩⟩
    next hns =>
      split_ifs at hs
      cases hs
      refine ⟨h.restore hzero hns false w.ehf.nsX0, fun _ => ⟨rfl, rfl, rfl, h.left⟩⟩

/-- **One event.** -/
theorem Watched.Ok.step (h : w.Ok) {event : PeEvent} (hstep : w.step x event = some w') :
    w'.Ok := by
  cases event with
  | exited => exact h.exited hstep
  | entering => exact (h.entering hstep).1
  | allowNsPreemption preemptRetCode =>
    obtain ⟨s, hs, rfl⟩ := map_eq_some_iff.mp hstep
    unfold ehfAllowNsPreemption at hs
    split_ifs at hs with hns hact
    cases hs
    rw [Bool.not_eq_true] at hact
    exact h.restore (hasValidPriActivations_eq_false.mp hact) hns w.secure preemptRetCode
  | activate =>
    obtain ⟨s, hs, rfl⟩ := map_eq_some_iff.mp hstep
    obtain ⟨hbase, hns⟩ := baseMask_activate hs
    exact h.keep hbase hns w.secure
  | deactivate =>
    obtain ⟨s, hs, rfl⟩ := map_eq_some_iff.mp hstep
    obtain ⟨hbase, hns⟩ := baseMask_deactivate hs
    exact h.keep hbase hns w.secure
  | program =>
    unfold Watched.step at hstep
    dsimp only at hstep
    split_ifs at hstep
    cases hstep
    exact ⟨h.stashed, h.left, fun hr => nomatch hr⟩

/-- **The mask of the normal world** in every run of world switches, activations,
deactivations and calls of `ehf_allow_ns_preemption` that does not panic, with masks that
the normal world sets in between. When the normal world is entered with no active
priority, the mask is the one it was last left with when no priority was active, unless
that one is not stashed and the normal world has set another one since. While secure
execution is in progress with no active priority and the mask is stashed, no non-secure
interrupt is let through. -/
theorem ns_mask_kept {x : ExceptionData} {s : EhfState} {secure : Bool} {events : List PeEvent}
    {w : Watched} (hactive : s.activePriBits = 0) (hns : s.nsPriMask = 0)
    (hrun : run (Watched.step x) (Watched.start s secure) events = some w) :
    (∀ runPri w', w.step x (.entering runPri) = some w' → w'.ehf.activePriBits = 0 →
      (w.stashed = true ∨ w.reprogrammed = false) → w'.ehf.pmr = w.left) ∧
    (w.secure = true → w.ehf.activePriBits = 0 → w.stashed = true → w.reprogrammed = false →
      w.ehf.pmr ≤ gicHighestNsPriority) := by
  have hstt : (Watched.start s secure).Ok := by
    have hno : ¬ (Watched.start s secure).stashed = true := Bool.false_ne_true
    exact ⟨iff_of_false hno (not_not.mpr hns), fun hs => absurd hs hno, fun _ => if_pos hactive⟩
  have hok : w.Ok := run_invariant (fun _ _ _ h hstep => h.step hstep) hstt hrun
  constructor
  · intro runPri w' hstep h0 hmask
    obtain ⟨hok', hent⟩ := hok.entering hstep
    obtain ⟨hsta, hleft, hrep, hput⟩ := hent h0
    rcases hmask with hyes | hno
    · exact hput hyes
    · have hbase := hok'.base (hrep.trans hno)
      rw [hsta, hleft] at hbase
      unfold EhfState.baseMask at hbase
      rw [if_pos h0] at hbase
      exact hbase
  · intro _ h0 hsta hno
    have hbase := hok.base hno
    unfold EhfState.baseMask at hbase
    rw [if_pos h0, if_pos hsta] at hbase
    rw [hbase]
    exact BitVec.le_refl _

/-- Secure execution with an activation around a visit to the normal world. -/
theorem ns_mask_kept_delegated :
    ∃ w w', run (Watched.step sampleLevels) (Watched.start sampleIdle false)
        [.program 0xc0, .exited 0xff, .activate 0xff 0x40, .entering 0xff, .exited 0xff,
          .deactivate 0xff 0x40] = some w ∧
      w.secure = true ∧ w.ehf.pmr ≤ gicHighestNsPriority ∧
      w.step sampleLevels (.entering 0xff) = some w' ∧ w'.ehf.pmr = w.left ∧ w.left = 0xc0 := by
  simp only [exists_and_left]
  refine exists_some_imp (q := fun w => w.secure = true ∧ w.ehf.activePriBits = 0 ∧
    w.stashed = true ∧ w.reprogrammed = false ∧ w.left = 0xc0 ∧
    ∃ w', w.step sampleLevels (.entering 0xff) = some w' ∧ w'.ehf.activePriBits = 0) (by decide)
    fun w hrun ⟨hsec, h0, hsta, hno, hleft, w', hstep, h0'⟩ => ?_
  obtain ⟨hent, hgrd⟩ := ns_mask_kept rfl rfl hrun
  exact ⟨hsec, hgrd hsec h0 hsta hno, w', hstep, hent 0xff w' hstep h0' (.inl hsta), hleft⟩

/-- The normal world is left with an active priority, so that nothing is stashed, and the priority
is then deactivated: its own mask is in force, which lets its interrupts through. -/
theorem ns_mask_not_stashed :
    ∃ w, run (Watched.step sampleLevels) (Watched.start sampleIdle false)
        [.exited 0xff, .entering 0xff, .activate 0xff 0x40, .exited 0xff, .deactivate 0xff 0x40] =
          some w ∧
      w.secure = true ∧ w.ehf.activePriBits = 0 ∧ w.reprogrammed = false ∧ w.ehf.pmr = 0xff ∧
      ¬ w.ehf.pmr ≤ gicHighestNsPriority := by
  decide

end TrustedFirmware.Ehf
