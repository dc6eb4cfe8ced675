import TrustedFirmware.Lib.Bits
import TrustedFirmware.Lib.Run

/-!
# The exception handling framework on one PE (`bl31/ehf.c`)

Priorities that are activated and deactivated as a stack, kept as a bitmap with one
saved priority mask, and the stashing of the mask of the normal world.

A deactivation takes back what the matching activation did to the bitmap. It takes back
the change of the priority mask only if no other priority is active
(`deactivation_matches`); otherwise the mask stays where the activation has put it, at
the priority that is no longer active (`nested_mask_not_restored`).
-/

namespace TrustedFirmware.Ehf

open Lib Option

abbrev U8 := BitVec 8
abbrev U32 := BitVec 32
abbrev U64 := BitVec 64

/-! ### The model -/

/-- `EHF_PRI_VALID_` -/
def ehfPriValid : U64 := 1

/-- `GIC_HIGHEST_NS_PRIORITY` -/
def gicHighestNsPriority : U8 := 0x80

/-- `exception_data`: the handlers of the priority levels, with bit 0 set for the valid
ones, and the number of priority bits that tell the levels apart. -/
structure ExceptionData where
  ehfPriorities : List U64
  priBits : Nat
  /-- Asserted by `ehf_init`. -/
  num_le : ehfPriorities.length ≤ 32
  /-- There are seven bits below the one of the security state. -/
  priBits_le : priBits ≤ 7

/-- `EHF_PRI_TO_IDX` -/
def ehfPriToIdx (priority priBits : Nat) : Nat := (priority &&& 0x7f) >>> (7 - priBits)

/-- `IDX_TO_PRI` -/
def idxToPri (x : ExceptionData) (idx : Nat) : Nat := (idx <<< (7 - x.priBits)) &&& 0x7f

/-- `IS_IDX_VALID` -/
def isIdxValid (x : ExceptionData) (idx : Nat) : Bool :=
  (x.ehfPriorities[idx]?).any fun handler => handler &&& ehfPriValid ≠ 0

/-- `IS_PRI_SECURE` -/
def isPriSecure (pri : U8) : Bool := pri &&& 0x80 = 0

/-- `pri_to_idx`; `none` where an assertion fails. -/
def priToIdx (x : ExceptionData) (priority : Nat) : Option Nat :=
  let idx := ehfPriToIdx priority x.priBits
  if idx < x.ehfPriorities.length ∧ isIdxValid x idx then some idx else none

/-- `PRI_BIT` -/
def priBit (idx : Nat) : U32 := 1#32 <<< idx

/-- The data of the PE, the priority mask register of its CPU interface, which reads
back what was written, and the register x0 in the context of the normal world. -/
structure EhfState where
  activePriBits : U32
  initPriMask : U8
  nsPriMask : U8
  pmr : U8
  nsX0 : U64
  deriving DecidableEq

/-- `has_valid_pri_activations` -/
def hasValidPriActivations (s : EhfState) : Bool := s.activePriBits ≠ 0

/-- `get_pe_highest_active_idx`; `none` stands for `EHF_INVALID_IDX`. -/
def getPeHighestActiveIdx (s : EhfState) : Option Nat := lowestBit s.activePriBits

/-- `ehf_activate_priority`, with what `plat_ic_get_running_priority` returns; `none`
where it panics. -/
def ehfActivatePriority (x : ExceptionData) (s : EhfState) (runPri : U8) (priority : Nat) :
    Option EhfState :=
  if runPri.toNat ≤ priority then none
  else
    let curPriIdx := getPeHighestActiveIdx s
    match priToIdx x priority with
    | none => none
    | some idx =>
      if curPriIdx.any fun cur => cur ≤ idx then none
      else
        let oldMask := s.pmr
        let s := { s with
          activePriBits := s.activePriBits ||| priBit idx
          pmr := BitVec.ofNat 8 priority }
        if oldMask.toNat ≤ priority then none
        else if curPriIdx = none then some { s with initPriMask := oldMask }
        else some s

/-- `ehf_deactivate_priority` -/
def ehfDeactivatePriority (x : ExceptionData) (s : EhfState) (runPri : U8) (priority : Nat) :
    Option EhfState :=
  if runPri.toNat ≤ priority then none
  else
    let curPriIdx := getPeHighestActiveIdx s
    match priToIdx x priority with
    | none => none
    | some idx =>
      if curPriIdx ≠ some idx then none
      else
        let oldMask := s.pmr
        let s := { s with activePriBits := s.activePriBits &&& (s.activePriBits - 1#32) }
        -- With a priority left, the mask is set to the one that was just deactivated.
        let s := { s with
          pmr := if getPeHighestActiveIdx s = none then s.initPriMask
            else BitVec.ofNat 8 priority }
        if priority < oldMask.toNat then none else some s

/-- `ehf_exited_normal_world` -/
def ehfExitedNormalWorld (s : EhfState) (runPri : U8) : Option EhfState :=
  if isPriSecure runPri then some s
  else if hasValidPriActivations s then some s
  else if s.nsPriMask ≠ 0 then none
  else if isPriSecure s.pmr then none
  else some { s with nsPriMask := s.pmr, pmr := gicHighestNsPriority }

/-- `ehf_entering_normal_world` -/
def ehfEnteringNormalWorld (s : EhfState) (runPri : U8) : Option EhfState :=
  if isPriSecure runPri then some s
  else if hasValidPriActivations s then some s
  else if s.nsPriMask = 0 then some s
  else if s.pmr ≠ gicHighestNsPriority ∧ s.pmr ≠ s.nsPriMask then none
  else some { s with pmr := s.nsPriMask, nsPriMask := 0 }

/-- `ehf_allow_ns_preemption` -/
def ehfAllowNsPreemption (s : EhfState) (preemptRetCode : U64) : Option EhfState :=
  if s.nsPriMask = 0 then none
  else if hasValidPriActivations s then none
  else some { s with nsX0 := preemptRetCode, pmr := s.nsPriMask, nsPriMask := 0 }

/-! ### What the calls do -/

section

variable {x : ExceptionData} {s s' : EhfState} {runPri : U8} {priority idx : Nat}

theorem priToIdx_eq_some (h : priToIdx x priority = some idx) :
    idx = ehfPriToIdx priority x.priBits ∧ idx < 32 := by
  unfold priToIdx at h
  dsimp only at h
  split_ifs at h with hval
  cases h
  exact ⟨rfl, hval.1.trans_le x.num_le⟩

theorem getPeHighestActiveIdx_eq_none :
    getPeHighestActiveIdx s = none ↔ s.activePriBits = 0 := lowestBit_eq_none

/-- An activation that does not panic is of a priority above those that are active and
above the mask. -/
theorem ehfActivatePriority_eq_some (h : ehfActivatePriority x s runPri priority = some s') :
    ∃ idx, priToIdx x priority = some idx ∧ priority < runPri.toNat ∧ priority < s.pmr.toNat ∧
      (∀ i ≤ idx, s.activePriBits.getLsbD i = false) ∧
      s' = { s with
        activePriBits := s.activePriBits ||| priBit idx
        pmr := BitVec.ofNat 8 priority
        initPriMask := if s.activePriBits = 0 then s.pmr else s.initPriMask } := by
  unfold ehfActivatePriority at h
  split at h
  · cases h
  rename_i hrun
  generalize hidx : priToIdx x priority = v at h
  cases v with
  | none =>
    cases h
  | some idx =>
    dsimp only at h
    split at h
    · cases h
    rename_i hab
    by_cases hmask : s.pmr.toNat ≤ priority
    · rw [if_pos hmask] at h
      cases h
    refine ⟨idx, rfl, not_le.mp hrun, not_le.mp hmask, fun i hi => ?_, ?_⟩
    · cases hcur : getPeHighestActiveIdx s with
      | none =>
        rw [getPeHighestActiveIdx_eq_none.mp hcur]
        exact BitVec.getLsbD_zero
      | some =>
        simp only [hcur, any_some, decide_eq_true_eq, not_le] at hab
        exact (lowestBit_eq_some.mp hcur).2.2 i (hi.trans_lt hab)
    · split_ifs at h with hnone
      · rw [if_pos (getPeHighestActiveIdx_eq_none.mp hnone)]
        exact (some.inj h).symm
      · rw [if_neg fun h0 => hnone (getPeHighestActiveIdx_eq_none.mpr h0)]
        exact (some.inj h).symm

/-- A deactivation that does not panic is of the highest priority that is active. -/
theorem ehfDeactivatePriority_eq_some (h : ehfDeactivatePriority x s runPri priority = some s') :
    ∃ idx, priToIdx x priority = some idx ∧ priority < runPri.toNat ∧
      getPeHighestActiveIdx s = some idx ∧
      s' = { s with
        activePriBits := s.activePriBits &&& (s.activePriBits - 1#32)
        pmr := if s.activePriBits &&& (s.activePriBits - 1#32) = 0 then s.initPriMask
          else BitVec.ofNat 8 priority } := by
  unfold ehfDeactivatePriority at h
  split at h
  · cases h
  rename_i hrun
  generalize hidx : priToIdx x priority = v at h
  cases v with
  | none =>
    cases h
  | some idx =>
    dsimp only at h
    by_cases hcur : getPeHighestActiveIdx s = some idx
    · rw [if_neg (not_not.mpr hcur)] at h
      split at h
      · cases h
      refine ⟨idx, rfl, not_le.mp hrun, hcur, ?_⟩
      simp only [getPeHighestActiveIdx_eq_none] at h
      exact (some.inj h).symm
    · rw [if_pos hcur] at h
      cases h

end

/-! ### Nested activations -/

/-- An activation that has not been matched yet: its priority, and the priority mask and
the bitmap right before it. -/
structure Frame where
  priority : Nat
  mask : U8
  bits : U32

/-- The PE with the activations that were made, the most recent one first. -/
structure Nested where
  ehf : EhfState
  frames : List Frame

inductive PriorityCall
  | activate (priority : Nat)
  | deactivate (priority : Nat)

def PriorityCall.priority : PriorityCall → Nat
  | .activate priority | .deactivate priority => priority

/-- What the running priority register holds while no interrupt is being handled. -/
def idlePriority : U8 := 0xff

/-- One call with the running priority idle. -/
def Nested.step (x : ExceptionData) (n : Nested) : PriorityCall → Option Nested
  | .activate priority => (ehfActivatePriority x n.ehf idlePriority priority).map fun s =>
    ⟨s, ⟨priority, n.ehf.pmr, n.ehf.activePriBits⟩ :: n.frames⟩
  | .deactivate priority => (ehfDeactivatePriority x n.ehf idlePriority priority).map fun s =>
    ⟨s, n.frames.tail⟩

/-- The priority is one of a level, with no bit beyond those that tell the levels
apart. -/
def IsLevel (x : ExceptionData) (priority : Nat) : Prop :=
  idxToPri x (ehfPriToIdx priority x.priBits) = priority
  deriving Decidable

/-- The bitmap has the bits of the activations, each below those made before it, and the
mask before the first one is saved. -/
def FramesOk (x : ExceptionData) (init : U8) : U32 → List Frame → Prop
  | bits, [] => bits = 0
  | bits, f :: fs =>
    IsLevel x f.priority ∧ f.priority < f.mask.toNat ∧ (fs = [] → f.mask = init) ∧
    (∃ idx, priToIdx x f.priority = some idx ∧ bits = f.bits ||| priBit idx ∧
      ∀ i ≤ idx, f.bits.getLsbD i = false) ∧
    FramesOk x init f.bits fs

/-- The bitmap is that of the activations. -/
def Nested.Ok (x : ExceptionData) (n : Nested) : Prop :=
  FramesOk x n.ehf.initPriMask n.ehf.activePriBits n.frames

variable {x : ExceptionData} {n n' : Nested} {f : Frame} {fs : List Frame} {init : U8}
  {bits : U32} {priority idx : Nat}

/-- What the most recent activation did to the bitmap is read and taken back. -/
theorem lowestBit_priBit (hidx : priToIdx x priority = some idx)
    (hlow : ∀ i ≤ idx, bits.getLsbD i = false) :
    lowestBit (bits ||| priBit idx) = some idx ∧
    (bits ||| priBit idx) &&& ((bits ||| priBit idx) - 1#32) = bits := by
  have hlt := (priToIdx_eq_some hidx).2
  exact ⟨lowestBit_or_twoPow hlt hlow, clear_lowestBit hlt hlow⟩

theorem FramesOk.eq_zero_iff (h : FramesOk x init bits fs) : bits = 0 ↔ fs = [] := by
  cases fs with
  | nil => exact iff_of_true h rfl
  | cons f fs =>
    obtain ⟨-, -, -, ⟨idx, hidx, hbits, hlow⟩, -⟩ := h
    refine iff_of_false (fun h0 => ?_) (List.cons_ne_nil f fs)
    have hsome := (lowestBit_priBit hidx hlow).1
    rw [← hbits, lowestBit_eq_none.mpr h0] at hsome
    cases hsome

/-- Activations do not depend on the saved mask unless there are any. -/
theorem FramesOk.of_ne {init' : U8} (h : FramesOk x init bits fs)
    (hne : fs ≠ [] → init' = init) : FramesOk x init' bits fs := by
  cases fs with
  | nil => exact h
  | cons f fs =>
    rw [hne (List.cons_ne_nil f fs)]
    exact h

/-- **An accepted activation** goes on top. -/
theorem Nested.Ok.activate (h : n.Ok x) (hlvl : IsLevel x priority)
    (hstep : n.step x (.activate priority) = some n') : n'.Ok x := by
  obtain ⟨s, hs, rfl⟩ := map_eq_some_iff.mp hstep
  obtain ⟨idx, hidx, -, hmask, hlow, rfl⟩ := ehfActivatePriority_eq_some hs
  refine ⟨hlvl, hmask, fun hnil => ?_, ⟨idx, hidx, rfl, hlow⟩, ?_⟩
  · exact (if_pos (h.eq_zero_iff.mpr hnil)).symm
  · exact FramesOk.of_ne h fun hne => if_neg fun h0 => hne (h.eq_zero_iff.mp h0)

/-- **An accepted deactivation** is that of the most recent activation. -/
theorem Nested.Ok.deactivate (h : n.Ok x) (hlvl : IsLevel x priority)
    (hstep : n.step x (.deactivate priority) = some n') :
    n'.Ok x ∧ ∃ f, n.frames = f :: n'.frames ∧ f.priority = priority ∧
      n'.ehf.activePriBits = f.bits ∧ (n'.ehf.pmr = f.mask ↔ n.frames = [f]) := by
  obtain ⟨s, hs, rfl⟩ := map_eq_some_iff.mp hstep
  obtain ⟨idx, hidx, hidle, hcur, rfl⟩ := ehfDeactivatePriority_eq_some hs
  cases hfrm : n.frames with
  | nil =>
    rw [getPeHighestActiveIdx_eq_none.mpr (h.eq_zero_iff.mpr hfrm)] at hcur
    cases hcur
  | cons f fs =>
    have hok := h
    unfold Nested.Ok at hok
    rw [hfrm] at hok
    obtain ⟨hlevel', hmask, hinit, ⟨idx', hidx', hbits, hlow⟩, hrest⟩ := hok
    obtain ⟨hlo, hclr⟩ := lowestBit_priBit hidx' hlow
    rw [← hbits] at hlo hclr
    -- Both priorities are those of the same level.
    obtain rfl : idx = idx' := some.inj (hcur.symm.trans hlo)
    have hsame : f.priority = priority := by
      rw [← hlevel', ← hlvl, ← (priToIdx_eq_some hidx).1, ← (priToIdx_eq_some hidx').1]
    rw [hclr]
    refine ⟨hrest, f, rfl, hsame, rfl, ?_⟩
    rw [List.cons.injEq, and_iff_right rfl]
    by_cases hfs : fs = []
    · rw [if_pos (hrest.eq_zero_iff.mpr hfs)]
      exact iff_of_true (hinit hfs).symm hfs
    · rw [if_neg fun h0 => hfs (hrest.eq_zero_iff.mp h0)]
      refine iff_of_false (fun heq => ?_) hfs
      -- The mask before the activation was weaker than its priority.
      have hlt : priority < 2 ^ 8 := hidle.trans_le (by decide)
      rw [← heq, hsame, BitVec.toNat_ofNat, Nat.mod_eq_of_lt hlt] at hmask
      exact lt_irrefl priority hmask

/-- **One call** keeps the bitmap that of the activations. -/
theorem Nested.Ok.step (h : n.Ok x) {call : PriorityCall} (hlvl : IsLevel x call.priority)
    (hstep : n.step x call = some n') : n'.Ok x := by
  cases call with
  | activate => exact h.activate hlvl hstep
  | deactivate => exact (h.deactivate hlvl hstep).1

/-- **Deactivations match activations** in every run of calls for priority levels that
does not panic: a deactivation that is accepted is of the priority that was activated
last, and it takes the bitmap back to what it was right before that activation. It takes
the priority mask back exactly if no other priority is active. -/
theorem deactivation_matches {x : ExceptionData} {s : EhfState} {calls : List PriorityCall}
    {n n' : Nested} {priority : Nat} (hstart : s.activePriBits = 0)
    (hrun : run (Nested.step x) ⟨s, []⟩ calls = some n)
    (hlevels : ∀ call ∈ calls, IsLevel x call.priority) (hlevel : IsLevel x priority)
    (hstep : n.step x (.deactivate priority) = some n') :
    ∃ f, n.frames = f :: n'.frames ∧ f.priority = priority ∧
      n'.ehf.activePriBits = f.bits ∧ (n'.ehf.pmr = f.mask ↔ n.frames = [f]) := by
  have hok : n.Ok x := by
    refine run_invariant_along (fun _ _ _ h hlevel hstep => h.step hlevel hstep)
      (show Nested.Ok x ⟨s, []⟩ from hstart) ?_ hrun
    exact along_of_forall hlevels
  exact (hok.deactivate hlevel hstep).2

/-- Four priority levels, of which all but the highest are in use. -/
def sampleLevels : ExceptionData where
  ehfPriorities := [0, 1, 1, 1]
  priBits := 2
  num_le := by decide
  priBits_le := by decide

/-- No priority is active and nothing is masked. -/
def sampleIdle : EhfState := ⟨0, 0, 0, 0xff, 0⟩

/-- The first of two nested activations is matched last. -/
theorem deactivation_matches_outer :
    ∃ n n', run (Nested.step sampleLevels) ⟨sampleIdle, []⟩
        [.activate 0x60, .activate 0x20, .deactivate 0x20] = some n ∧
      n.step sampleLevels (.deactivate 0x60) = some n' ∧
      ∃ f, n.frames = f :: n'.frames ∧ f.priority = 0x60 ∧
        n'.ehf.activePriBits = f.bits ∧ (n'.ehf.pmr = f.mask ↔ n.frames = [f]) := by
  simp only [exists_and_left]
  refine exists_some_imp (q := fun n =>
    ∃ n', n.step sampleLevels (.deactivate 0x60) = some n' ∧ True) (by decide)
    fun n hrun ⟨n', hstep, _⟩ => ⟨n', hstep, ?_⟩
  exact deactivation_matches rfl hrun (by decide) (by decide) hstep

/-- After the second of two nested activations is matched, the mask is not that before
it, but the priority that is no longer active. A priority that is not one of a level is
taken for the level that it falls in. -/
theorem nested_mask_not_restored :
    (∃ n n' f, run (Nested.step sampleLevels) ⟨sampleIdle, []⟩
        [.activate 0x60, .activate 0x20] = some n ∧
      n.step sampleLevels (.deactivate 0x20) = some n' ∧ n.frames = f :: n'.frames ∧
      f.priority = 0x20 ∧ f.mask = 0x60 ∧ n'.ehf.pmr = 0x20) ∧
    ∃ n n', run (Nested.step sampleLevels) ⟨sampleIdle, []⟩ [.activate 0x20] = some n ∧
      n.step sampleLevels (.deactivate 0x21) = some n' := by
  constructor
  · exact ⟨_, _, ⟨0x20, 0x60, 8⟩, rfl, rfl, rfl, rfl, rfl, rfl⟩
  · exact ⟨_, _, rfl, rfl⟩

end TrustedFirmware.Ehf
