import Mathlib.Data.BitVec

/-!
# How the normal world is re-entered

By `cm_setup_context`, for `CPU_SUSPEND` to power down and for `CPU_ON`. The context is built when
the hook of the secure payload dispatcher has returned. All of it comes from the caller, or is zero,
but for `ACTLR_EL1`: that one is read from the CPU, and `svc_suspend` has run the payload there
since the call was made. So the value of the secure world goes to the normal world.
-/

namespace TrustedFirmware.Psci.Reentry

open Option

/-- The registers that `el1_sysregs_context_restore` writes. -/
inductive SysReg
  | spsrEl1 | elrEl1 | sctlrEl1 | actlrEl1 | cpacrEl1 | csselrEl1 | spEl1 | esrEl1 | ttbr0El1
  | ttbr1El1 | mairEl1 | amairEl1 | tcrEl1 | tpidrEl1 | tpidrEl0 | tpidrroEl0 | parEl1 | farEl1
  | afsr0El1 | afsr1El1 | contextidrEl1 | vbarEl1 | pmcrEl0 | spsrAbt | spsrUnd | spsrIrq | spsrFiq
  | dacr32El2 | ifsr32El2 | cntpCtlEl0 | cntpCvalEl0 | cntvCtlEl0 | cntvCvalEl0 | cntkctlEl1
  deriving DecidableEq, Repr

/-- The options of the build that matter here, and `get_scr_el3_from_routing_model`. -/
structure Build where
  handleEaEl3First : Bool
  faultInjectionSupport : Bool
  ctxIncludePauthRegs : Bool
  errataA75764081 : Bool
  scrEl3FromRoutingModel : (secure : Bool) → BitVec 32

/-- `entry_point_info_t`, with the attributes one by one. -/
structure EntryPointInfo where
  secure : Bool
  secureTimer : Bool
  bigEndian : Bool
  pc : BitVec 64
  spsr : BitVec 32
  /-- `x0` to `x7`. -/
  args : Nat → BitVec 64

/-- `cpu_context_t`. -/
structure Context where
  /-- `x0` to `x30`. -/
  gpRegs : Nat → BitVec 64
  scrEl3 : BitVec 32
  elrEl3 : BitVec 64
  spsrEl3 : BitVec 32
  el1 : SysReg → BitVec 64

def bit {w : Nat} (n : Nat) : BitVec w := 1 <<< n

/-- `SPSR_64` with `MODE_SP_ELX` and all exceptions masked. -/
def spsr64 (el : BitVec 32) : BitVec 32 := (el &&& 3) <<< 2 ||| 1 ||| 0xF#32 <<< 6

/-- `SPSR_MODE32`. -/
def spsrMode32 (mode : BitVec 32) (isa endian : Bool) (aif : BitVec 32) : BitVec 32 :=
  bit 4 ||| mode &&& 0xF#32 ||| (if isa then bit 5 else 0) ||| (if endian then bit 9 else 0) |||
    (aif &&& 7#32) <<< 6

def getRw (spsr : BitVec 32) : BitVec 32 := spsr >>> 4 &&& 1
def getEl (spsr : BitVec 32) : BitVec 32 := spsr >>> 2 &&& 3
def getM32 (spsr : BitVec 32) : BitVec 32 := spsr &&& 0xF
def modeEl1 : BitVec 32 := 1
def modeEl2 : BitVec 32 := 2
def mode32Svc : BitVec 32 := 0x3
def mode32Hyp : BitVec 32 := 0xA

/-- What the CPU has when the normal world makes the call. -/
structure Caller where
  scrEl3 : BitVec 32
  sctlrEl2 : BitVec 64
  el1 : SysReg → BitVec 64

/-- `SCR_EL3.RW` and `SCR_EL3.HCE`: whether the caller runs in AArch64, and has EL2 or Hyp mode. -/
def Caller.rw (c : Caller) : Bool := c.scrEl3.getLsbD 10
def Caller.hce (c : Caller) : Bool := c.scrEl3.getLsbD 8

/-- `psci_get_ns_ep_info`; `none` is `PSCI_E_INVALID_ADDRESS`. -/
def psciGetNsEpInfo (c : Caller) (entrypoint contextId : BitVec 64) : Option EntryPointInfo :=
  let sctlr := if c.hce then c.sctlrEl2 else c.el1 .sctlrEl1
  let ee := sctlr.getLsbD 25
  let ep spsr := ⟨false, false, ee, entrypoint, spsr, fun i => if i = 0 then contextId else 0⟩
  if c.rw then
    if entrypoint.getLsbD 0 then none else some (ep (spsr64 (if c.hce then modeEl2 else modeEl1)))
  else
    let mode := if c.hce then mode32Hyp else mode32Svc
    some (ep (spsrMode32 mode (entrypoint.getLsbD 0) ee 7))

/-- `SCR_EL3` as `cm_setup_context` makes it from the one of the CPU. -/
def setupScrEl3 (b : Build) (scrEl3 : BitVec 32) (ep : EntryPointInfo) : BitVec 32 :=
  let rw64 := getRw ep.spsr = 0
  let scr := scrEl3 &&& ~~~(bit 0 ||| bit 10 ||| bit 2 ||| bit 1 ||| bit 11 ||| bit 8)
  let scr := if ep.secure then scr else scr ||| bit 0
  let scr := if rw64 then scr ||| bit 10 else scr
  let scr := if ep.secureTimer then scr ||| bit 11 else scr
  let scr := if b.handleEaEl3First then scr else scr &&& ~~~bit 3
  let scr := if b.faultInjectionSupport then scr ||| bit 21 else scr
  let scr := if ¬ b.ctxIncludePauthRegs ∧ ¬ ep.secure then scr ||| bit 17 ||| bit 16 else scr
  let scr := scr ||| b.scrEl3FromRoutingModel ep.secure
  if rw64 ∧ getEl ep.spsr = modeEl2 ∨ ¬ rw64 ∧ getM32 ep.spsr = mode32Hyp then scr ||| bit 8
  else scr

/-- `cm_setup_context`, on a CPU with this `SCR_EL3` and these registers of EL1. -/
def cmSetupContext (b : Build) (scrEl3 : BitVec 32) (live : SysReg → BitVec 64)
    (ep : EntryPointInfo) : Context :=
  let sctlr : BitVec 64 := if ep.bigEndian then bit 25 else 0
  let sctlr := sctlr ||| (if getRw ep.spsr = 0
    then bit 29 ||| bit 28 ||| bit 23 ||| bit 22 ||| bit 20 ||| bit 11
    else bit 23 ||| bit 22 ||| bit 11 ||| bit 4 ||| bit 3 ||| bit 5 ||| bit 16 ||| bit 18)
  let sctlr := if b.errataA75764081 then sctlr ||| bit 21 else sctlr
  { gpRegs := fun i => if i < 8 then ep.args i else 0
    scrEl3 := setupScrEl3 b scrEl3 ep
    elrEl3 := ep.pc
    spsrEl3 := ep.spsr
    el1 := fun r => match r with
      | .sctlrEl1 => sctlr
      | .actlrEl1 => live .actlrEl1
      | .pmcrEl0 => if ep.secure then 0x60 else 0
      | _ => 0 }

inductive Call
  | cpuSuspend | cpuOn
  deriving DecidableEq, Repr

/-- `SCR_EL3` and the registers of EL1 when the hook has returned. `tspd_cpu_suspend_handler` enters
the payload with the secure context, and the payload leaves the registers behind as it likes;
`tspd_cpu_on_handler` does nothing. -/
def afterHook (call : Call) (c : Caller) (secure : Context) (left : SysReg → BitVec 64) :
    BitVec 32 × (SysReg → BitVec 64) :=
  match call with
  | .cpuSuspend => (secure.scrEl3, left)
  | .cpuOn => (c.scrEl3, c.el1)

/-- The context that the normal world is re-entered with: `cm_prepare_el3_exit` and `el3_exit` load
all of it. -/
def reentry (b : Build) (call : Call) (c : Caller) (secure : Context)
    (entrypoint contextId : BitVec 64) (left : SysReg → BitVec 64) : Option Context :=
  (psciGetNsEpInfo c entrypoint contextId).map fun ep =>
    cmSetupContext b (afterHook call c secure left).1 (afterHook call c secure left).2 ep

/-- The normal world, at the level of the caller, with nothing but the context id in its
registers. -/
structure AsAsked (c : Caller) (entrypoint contextId : BitVec 64) (ctx : Context) : Prop where
  ns : ctx.scrEl3.getLsbD 0 = true
  spsr : if c.rw then getRw ctx.spsrEl3 = 0 ∧ getEl ctx.spsrEl3 = if c.hce then modeEl2 else modeEl1
    else getRw ctx.spsrEl3 = 1 ∧ getM32 ctx.spsrEl3 = if c.hce then mode32Hyp else mode32Svc
  elr : ctx.elrEl3 = entrypoint
  x0 : ctx.gpRegs 0 = contextId
  gpRegs : ∀ i, i ≠ 0 → ctx.gpRegs i = 0

variable {b : Build} {call : Call} {c : Caller} {secure ctx ctx' : Context}
  {entrypoint contextId : BitVec 64} {left left' : SysReg → BitVec 64} {ep : EntryPointInfo}

theorem spsr64_mode (hce : Bool) : getRw (spsr64 (if hce then modeEl2 else modeEl1)) = 0 ∧
    getEl (spsr64 (if hce then modeEl2 else modeEl1)) = if hce then modeEl2 else modeEl1 := by
  cases hce <;> decide

theorem spsrMode32_mode (hce isa endian : Bool) :
    getRw (spsrMode32 (if hce then mode32Hyp else mode32Svc) isa endian 7) = 1 ∧
      getM32 (spsrMode32 (if hce then mode32Hyp else mode32Svc) isa endian 7) =
        if hce then mode32Hyp else mode32Svc := by
  cases hce <;> cases isa <;> cases endian <;> decide

theorem psciGetNsEpInfo_eq_some (h : psciGetNsEpInfo c entrypoint contextId = some ep) :
    ep.secure = false ∧ ep.pc = entrypoint ∧ (ep.args = fun i => if i = 0 then contextId else 0) ∧
      if c.rw then getRw ep.spsr = 0 ∧ getEl ep.spsr = if c.hce then modeEl2 else modeEl1
      else getRw ep.spsr = 1 ∧ getM32 ep.spsr = if c.hce then mode32Hyp else mode32Svc := by
  unfold psciGetNsEpInfo at h
  cases hrw : c.rw with
  | true =>
    simp only [hrw, if_true, ite_none_left_eq_some] at h
    cases h.2
    exact ⟨rfl, rfl, rfl, spsr64_mode c.hce⟩
  | false =>
    simp only [hrw, Bool.false_eq_true, if_false] at h
    cases h
    exact ⟨rfl, rfl, rfl, spsrMode32_mode c.hce _ _⟩

theorem setupScrEl3_ns {scrEl3 : BitVec 32} (h : ep.secure = false) :
    (setupScrEl3 b scrEl3 ep).getLsbD 0 = true := by
  simp only [setupScrEl3, h, Bool.false_eq_true, if_false, apply_ite (BitVec.getLsbD · 0),
    BitVec.getLsbD_or, BitVec.getLsbD_and]
  simp [bit]

theorem reentry_asAsked (h : reentry b call c secure entrypoint contextId left = some ctx) :
    AsAsked c entrypoint contextId ctx := by
  obtain ⟨ep, hep, rfl⟩ := map_eq_some_iff.mp h
  obtain ⟨hsec, hpc, hargs, hspsr⟩ := psciGetNsEpInfo_eq_some hep
  refine ⟨setupScrEl3_ns hsec, hspsr, hpc, ?_, fun i hi => ?_⟩
  · simp [cmSetupContext, hargs]
  · simp [cmSetupContext, hargs, hi]

/-- **What the secure world leaves behind does not matter**, whatever it is in two runs, exactly if
the payload has not been run, or `ACTLR_EL1` is the same. -/
theorem reentry_same_iff (h : reentry b call c secure entrypoint contextId left = some ctx)
    (h' : reentry b call c secure entrypoint contextId left' = some ctx') :
    (AsAsked c entrypoint contextId ctx ∧ AsAsked c entrypoint contextId ctx' ∧ ctx' = ctx) ↔
      (call = .cpuSuspend → left' .actlrEl1 = left .actlrEl1) := by
  have hask := reentry_asAsked h
  have hasked' := reentry_asAsked h'
  obtain ⟨ep, hep, rfl⟩ := map_eq_some_iff.mp h
  obtain ⟨ep', hep', rfl⟩ := map_eq_some_iff.mp h'
  cases hep.symm.trans hep'
  constructor
  · rintro ⟨-, -, heq⟩ rfl
    exact congrFun (congrArg Context.el1 heq) .actlrEl1
  · intro hsame
    refine ⟨hask, hasked', ?_⟩
    cases call with
    | cpuOn => rfl
    | cpuSuspend => simp only [cmSetupContext, afterHook, hsame rfl]

/-- No options, and the model that routes FIQs of the normal world to EL3. -/
def sampleBuild : Build := ⟨false, false, false, false, fun secure => if secure then 0 else bit 2⟩

/-- A kernel at EL1. -/
def sampleCaller : Caller := ⟨bit 10 ||| bit 0, 0, fun _ => 0x1234⟩

def sampleSecure : Context := ⟨fun _ => 0, bit 10, 0, 0, fun _ => 0⟩

/-- Everything but `ACTLR_EL1` may differ. -/
theorem reentry_same_tables : ∃ ctx,
    reentry sampleBuild .cpuSuspend sampleCaller sampleSecure 0x80000 7 (fun _ => 0) = some ctx ∧
    reentry sampleBuild .cpuSuspend sampleCaller sampleSecure 0x80000 7
      (fun r => if r = .actlrEl1 then 0 else 0xBAD) = some ctx := by
  obtain ⟨ctx, hctx⟩ : ∃ ctx, reentry sampleBuild .cpuSuspend sampleCaller sampleSecure 0x80000 7
      (fun _ => 0) = some ctx := ⟨_, rfl⟩
  obtain ⟨ctx', hctx'⟩ : ∃ ctx', reentry sampleBuild .cpuSuspend sampleCaller sampleSecure 0x80000 7
      (fun r => if r = .actlrEl1 then 0 else 0xBAD) = some ctx' := ⟨_, rfl⟩
  obtain ⟨-, -, rfl⟩ := (reentry_same_iff hctx hctx').mpr fun _ => rfl
  exact ⟨_, hctx, hctx'⟩

/-- `ACTLR_EL1` of the payload is what the normal world finds in its own. -/
theorem actlr_el1_leaks : ∃ ctx ctx',
    reentry sampleBuild .cpuSuspend sampleCaller sampleSecure 0x80000 7 (fun _ => 0) = some ctx ∧
    reentry sampleBuild .cpuSuspend sampleCaller sampleSecure 0x80000 7 (fun _ => 0x5EC) =
      some ctx' ∧
    ctx.el1 .actlrEl1 = 0 ∧ ctx'.el1 .actlrEl1 = 0x5EC ∧ sampleCaller.el1 .actlrEl1 = 0x1234 :=
  ⟨_, _, rfl, rfl, rfl, rfl, rfl⟩

end TrustedFirmware.Psci.Reentry
