import Mathlib.Data.BitVec

/-!
# Which CPU a call is for

PSCI leaves it to the platform to tell the MPIDRs that exist from those that do not;
`plat_core_pos_by_mpidr` of this platform computes an index from whatever it gets, and never refuses
one. `ensemble_pwr_domain_on` does not use that index: it takes the MPIDR itself for the number of
the CPU. Arrays are not bounded here, and each call keeps a log of its accesses.
-/

namespace TrustedFirmware.DevkitE7.TargetMpidr

open BitVec

def platformCoreCount : Nat := 2

/-- The entries of `secondary_cpu_flags`. -/
def secondaryCpuFlags : Nat := 3

def psciESuccess : Int := 0
def psciENotSupported : Int := -1
def psciEInvalidParams : Int := -2
def psciEAlreadyOn : Int := -4
def psciEOnPending : Int := -5

inductive AffInfoState
  | on | off | onPending
  deriving DecidableEq, Repr

/-- The arrays that have an entry for each CPU. -/
inductive CpuArray
  | cpuPdNodes | cpuData | cpuContext
  deriving DecidableEq, Repr

/-- What a call does. `ret` is missing where it calls a hook that this platform does not have. -/
structure Effects where
  ret : Option Int
  /-- Accesses to the arrays of PSCI. -/
  indices : List (CpuArray × Nat) := []
  /-- Entries of `secondary_cpu_flags` that are written. -/
  flags : List Nat := []
  /-- What is set in `HOST_CPU_BOOT_MSK` and in `HOST_CPU_WAKEUP`. -/
  bits : List (BitVec 32) := []

/-- `plat_arm_calc_core_pos`, and so `plat_core_pos_by_mpidr`. -/
def platArmCalcCorePos (mpidr : BitVec 32) : BitVec 32 :=
  (mpidr &&& 0xFF#32) + (mpidr &&& 0xFF00#32) >>> 6

/-- `psci_validate_mpidr`; the index is an `int`. -/
def psciValidateMpidr (mpidr : BitVec 32) : Int :=
  if (platArmCalcCorePos mpidr).toInt < 0 then psciEInvalidParams else psciESuccess

/-- The accesses of `ensemble_pwr_domain_on`, as the CPU does them: a shift takes the low byte of
the register, and the address of an entry, of four bytes, has 32 bits. -/
def ensemblePwrDomainOn (mpidr : BitVec 32) : List Nat × List (BitVec 32) :=
  let bit := 1#32 <<< (mpidr &&& 0xFF#32).toNat
  ([(mpidr - 1).toNat % 2 ^ 30], [bit, bit])

/-- `cpu_on_validate_state`. -/
def cpuOnValidateState : AffInfoState → Int
  | .on => psciEAlreadyOn
  | .onPending => psciEOnPending
  | .off => psciESuccess

/-- `psci_cpu_on` and `psci_cpu_on_start`. Any entry point is valid on this platform. -/
def psciCpuOn (affInfoState : Nat → AffInfoState) (targetCpu : BitVec 32) : Effects :=
  if psciValidateMpidr targetCpu ≠ psciESuccess then { ret := some psciEInvalidParams }
  else
    let targetIdx := (platArmCalcCorePos targetCpu).toNat
    let rc := cpuOnValidateState (affInfoState targetIdx)
    if rc ≠ psciESuccess then
      { ret := some rc, indices := [(.cpuPdNodes, targetIdx), (.cpuData, targetIdx)] }
    else
      { ret := some psciESuccess
        indices := [(.cpuPdNodes, targetIdx), (.cpuData, targetIdx), (.cpuContext, targetIdx)]
        flags := (ensemblePwrDomainOn targetCpu).1
        bits := (ensemblePwrDomainOn targetCpu).2 }

def AffInfoState.toInt : AffInfoState → Int
  | .on => 0
  | .off => 1
  | .onPending => 2

/-- `psci_affinity_info`. -/
def psciAffinityInfo (affInfoState : Nat → AffInfoState) (targetAffinity lowest : BitVec 32) :
    Effects :=
  if lowest > 0 then { ret := some psciEInvalidParams }
  else
    let targetIdx := platArmCalcCorePos targetAffinity
    if targetIdx.toInt = -1 then { ret := some psciEInvalidParams }
    else
      { ret := some (affInfoState targetIdx.toNat).toInt, indices := [(.cpuData, targetIdx.toNat)] }

/-- `psci_get_stat`: there is no `validate_power_state` that it could call. -/
def psciGetStat (targetCpu powerState : BitVec 32) : Effects :=
  if (platArmCalcCorePos targetCpu).toInt = -1 then { ret := some psciEInvalidParams }
  else if powerState &&& 0xFCFE0000 ≠ 0 then { ret := some psciEInvalidParams }
  else { ret := none }

/-- `psci_stat_residency` and `psci_stat_count`. No call of `psci_get_stat` succeeds here, and every
error becomes a 0. -/
def psciStat (targetCpu powerState : BitVec 32) : Effects :=
  { psciGetStat targetCpu powerState with
    ret := (psciGetStat targetCpu powerState).ret.map fun _ => 0 }

inductive Call
  | cpuOn
  | affinityInfo (lowestAffinityLevel : BitVec 32)
  /-- `psci_smc_handler` does not know it without `get_node_hw_state`. -/
  | nodeHwState
  | stat (powerState : BitVec 32)

def Call.effects (affInfoState : Nat → AffInfoState) (mpidr : BitVec 32) : Call → Effects
  | .cpuOn => psciCpuOn affInfoState mpidr
  | .affinityInfo lowest => psciAffinityInfo affInfoState mpidr lowest
  | .nodeHwState => { ret := some psciENotSupported }
  | .stat powerState => psciStat mpidr powerState

/-- The affinity fields of an MPIDR. -/
def affinity (mpidr : BitVec 32) : BitVec 32 := mpidr &&& 0x00FFFFFF

/-- **The call is refused, or for a CPU that exists**: it only uses the entries of that CPU, and
only sets its bits. The first CPU has no entry in `secondary_cpu_flags`. -/
def Right (mpidr : BitVec 32) (e : Effects) : Prop :=
  e.ret = some psciEInvalidParams ∨
    ∃ core < platformCoreCount, affinity mpidr = BitVec.ofNat 32 core ∧
      (∀ i ∈ e.indices, i.2 < platformCoreCount) ∧
      (∀ i ∈ e.flags, i < secondaryCpuFlags ∧ i + 1 = core) ∧
      ∀ b ∈ e.bits, b = 1#32 <<< core

/-- The MPIDR is of a CPU that exists; and if that one is off and to be turned on, it is the second
one, with nothing else in the low 30 bits of the MPIDR. -/
def Call.Fits (affInfoState : Nat → AffInfoState) (mpidr : BitVec 32) : Call → Prop
  | .cpuOn => affinity mpidr < 2 ∧
      (affInfoState (platArmCalcCorePos mpidr).toNat = .off → mpidr.toNat % 2 ^ 30 = 1)
  | .affinityInfo lowest => lowest > 0 ∨ affinity mpidr < 2
  | .nodeHwState | .stat _ => affinity mpidr < 2

variable {affInfoState : Nat → AffInfoState} {mpidr : BitVec 32} {e : Effects}

theorem corePos_le (mpidr : BitVec 32) : (platArmCalcCorePos mpidr).toNat =
        (mpidr &&& 0xFF#32).toNat + (mpidr &&& 0xFF00#32).toNat / 64 ∧
      (platArmCalcCorePos mpidr).toNat ≤ 1275 := by
  have hcpu : (mpidr &&& 0xFF#32).toNat ≤ 0xFF := Nat.and_le_right
  have hclu : (mpidr &&& 0xFF00#32).toNat ≤ 0xFF00 := Nat.and_le_right
  rw [platArmCalcCorePos, toNat_add, toNat_ushiftRight, Nat.shiftRight_eq_div_pow]
  omega

theorem corePos_nonneg (mpidr : BitVec 32) : 0 ≤ (platArmCalcCorePos mpidr).toInt := by
  have hle := (corePos_le mpidr).2
  rw [toInt_eq_toNat_of_lt (by omega)]
  exact Int.natCast_nonneg _

theorem and_ff_eq (mpidr : BitVec 32) : mpidr &&& 0xFF#32 = affinity mpidr &&& 0xFF#32 := by
  rw [affinity, BitVec.and_assoc]
  rfl

theorem corePos_of_affinity {core : Nat} (hcore : core < platformCoreCount)
    (h : affinity mpidr = BitVec.ofNat 32 core) : (platArmCalcCorePos mpidr).toNat = core := by
  have hclu : mpidr &&& 0xFF00#32 = affinity mpidr &&& 0xFF00#32 := by
    rw [affinity, BitVec.and_assoc]
    rfl
  rw [(corePos_le mpidr).1, and_ff_eq, hclu, h]
  have hcas : core = 0 ∨ core = 1 := by
    unfold platformCoreCount at hcore
    omega
  rcases hcas with rfl | rfl <;> decide

theorem right_of_affinity (h : affinity mpidr < 2) (hfl : e.flags = [])
    (hbits : e.bits = []) (hidx : ∀ i ∈ e.indices, i.2 = (platArmCalcCorePos mpidr).toNat) :
    Right mpidr e := by
  have hcore : (affinity mpidr).toNat < platformCoreCount := lt_def.mp h
  have haff : affinity mpidr = BitVec.ofNat 32 (affinity mpidr).toNat := by simp
  refine .inr ⟨_, hcore, haff, fun i hi => ?_, by simp [hfl], by simp [hbits]⟩
  rwa [hidx i hi, corePos_of_affinity hcore haff]

theorem Right.affinity_lt (h : Right mpidr e)
    (hret : e.ret ≠ some psciEInvalidParams) : affinity mpidr < 2 := by
  obtain ⟨core, hcore, haff, -⟩ := h.resolve_left hret
  rw [haff, lt_def, toNat_ofNat]
  exact (Nat.mod_le _ _).trans_lt hcore

theorem right_iff_affinity (hret : e.ret ≠ some psciEInvalidParams) (hfl : e.flags = [])
    (hbits : e.bits = []) (hidx : ∀ i ∈ e.indices, i.2 = (platArmCalcCorePos mpidr).toNat) :
    Right mpidr e ↔ affinity mpidr < 2 :=
  ⟨(·.affinity_lt hret), (right_of_affinity · hfl hbits hidx)⟩

/-- An MPIDR whose entry is that of the second CPU. -/
theorem affinity_eq_one (h : mpidr.toNat % 2 ^ 30 = 1) : affinity mpidr = 1 := by
  have hlow : mpidr &&& 0x3FFFFFFF#32 = 1 :=
    eq_of_toNat_eq ((Nat.and_two_pow_sub_one_eq_mod mpidr.toNat 30).trans h)
  calc affinity mpidr = mpidr &&& 0x3FFFFFFF#32 &&& 0x00FFFFFF := by
        rw [BitVec.and_assoc]
        rfl
    _ = 1 := by rw [hlow]; rfl

/-- The hook is called if the CPU with the index is off. -/
theorem psciCpuOn_effects (affInfoState : Nat → AffInfoState) (mpidr : BitVec 32) :
    (psciCpuOn affInfoState mpidr).ret ≠ some psciEInvalidParams ∧
      (∀ i ∈ (psciCpuOn affInfoState mpidr).indices, i.2 = (platArmCalcCorePos mpidr).toNat) ∧
      ((psciCpuOn affInfoState mpidr).flags, (psciCpuOn affInfoState mpidr).bits) =
        if affInfoState (platArmCalcCorePos mpidr).toNat = .off then ensemblePwrDomainOn mpidr
        else ([], []) := by
  have hval : psciValidateMpidr mpidr = psciESuccess :=
    if_neg (Int.not_lt.mpr (corePos_nonneg mpidr))
  cases hst : affInfoState (platArmCalcCorePos mpidr).toNat <;>
    simp [psciCpuOn, hval, hst, cpuOnValidateState, psciEAlreadyOn, psciEOnPending,
      psciESuccess, psciEInvalidParams]

/-- The hook is right for the second CPU only, and where nothing else is in the low bits. -/
theorem right_cpuOn_iff : Right mpidr (psciCpuOn affInfoState mpidr) ↔
    Call.Fits affInfoState mpidr .cpuOn := by
  obtain ⟨hret, hidx, hhook⟩ := psciCpuOn_effects affInfoState mpidr
  split_ifs at hhook with hoff
  · obtain ⟨hfl, hbits⟩ := Prod.mk.inj hhook
    constructor
    · intro h
      refine ⟨h.affinity_lt hret, fun _ => ?_⟩
      obtain ⟨core, hcore, -, -, hflag, -⟩ := h.resolve_left hret
      obtain ⟨-, hone⟩ := hflag ((mpidr - 1).toNat % 2 ^ 30)
        (by rw [hfl]; exact List.mem_singleton_self _)
      unfold platformCoreCount at hcore
      bv_omega
    · rintro ⟨-, hone⟩
      have haff := affinity_eq_one (hone hoff)
      refine .inr ⟨1, by decide, haff, fun i hi => ?_, ?_, ?_⟩
      · rw [hidx i hi, corePos_of_affinity (by decide) haff]
        decide
      · rw [hfl]
        have := hone hoff
        simp only [List.mem_singleton, forall_eq, secondaryCpuFlags]
        bv_omega
      · rw [hbits, and_ff_eq, haff]
        simp
  · obtain ⟨hfl, hbits⟩ := Prod.mk.inj hhook
    exact ⟨fun h => ⟨h.affinity_lt hret, fun h' => absurd h' hoff⟩,
      fun h => right_of_affinity h.1 hfl hbits hidx⟩

/-- **Calls with an MPIDR** are right exactly if they are for a CPU that exists; `CPU_ON` of a CPU
that is off only for the second one, with nothing else in the low 30 bits of the MPIDR. -/
theorem target_right_iff (affInfoState : Nat → AffInfoState) (mpidr : BitVec 32) (call : Call) :
    Right mpidr (call.effects affInfoState mpidr) ↔ call.Fits affInfoState mpidr := by
  have hnot : ¬ (platArmCalcCorePos mpidr).toInt = -1 := by
    have hnonneg := corePos_nonneg mpidr
    omega
  cases call with
  | cpuOn => exact right_cpuOn_iff
  | nodeHwState =>
    refine right_iff_affinity ?_ rfl rfl nofun
    simp [Call.effects, psciENotSupported, psciEInvalidParams]
  | affinityInfo lowest =>
    simp only [Call.effects, psciAffinityInfo, Call.Fits, if_neg hnot]
    split_ifs with hlow
    · exact iff_of_true (.inl rfl) (.inl hlow)
    · rw [or_iff_right hlow]
      refine right_iff_affinity ?_ rfl rfl (by simp)
      cases affInfoState (platArmCalcCorePos mpidr).toNat <;>
        simp [AffInfoState.toInt, psciEInvalidParams]
  | stat powerState =>
    refine right_iff_affinity ?_ ?_ ?_ ?_ <;>
      simp only [Call.effects, psciStat, psciGetStat, if_neg hnot] <;> split_ifs <;> simp
    decide

/-- `CPU_ON` for a CPU of cluster 16 goes to the entries with the index 64, and the one for the
first CPU, when it is off, writes in front of `secondary_cpu_flags`. -/
theorem target_out_of_range :
    (psciCpuOn (fun _ => .off) 0x1000).indices =
        [(.cpuPdNodes, 64), (.cpuData, 64), (.cpuContext, 64)] ∧
      (psciCpuOn (fun _ => .off) 0x1000).ret = some psciESuccess ∧
      (psciCpuOn (fun _ => .off) 0).flags = [2 ^ 30 - 1] ∧
      ¬ Right 0x1000 (psciCpuOn (fun _ => .off) 0x1000) ∧
      ¬ Right 0 (psciCpuOn (fun _ => .off) 0) := by
  refine ⟨by decide, by decide, by decide, fun h => ?_, fun h => ?_⟩
  · exact absurd (right_cpuOn_iff.mp h).1 (by decide)
  · exact absurd ((right_cpuOn_iff.mp h).2 rfl) (by decide)

end TrustedFirmware.DevkitE7.TargetMpidr
