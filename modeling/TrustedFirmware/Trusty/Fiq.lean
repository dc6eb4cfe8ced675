import TrustedFirmware.Lib.Run

/-!
# FIQs of a CPU in the normal world (`trusty.c`)

`trusty_fiq_handler` and `trusty_fiq_exit` write SP_EL1 to the saved context, but
`trusty_context_switch` has loaded the register from there before, and `el3_exit` does not load it:
the handler starts on the stack of the code it interrupts, and that code goes on with the stack that
the handler leaves.
-/

namespace TrustedFirmware.Trusty.Fiq

open List

/-- The registers of the normal world, or their values in its context. `gp` are X0 to X30 and
SP_EL0. -/
@[ext] structure Regs where
  pc : BitVec 64
  pstate : BitVec 32
  gp : Nat → BitVec 64
  spEl1 : BitVec 64

/-- `struct trusty_cpu_ctx` of the CPU. -/
structure TrustyCpuCtx where
  fiqHandlerPc : BitVec 64
  fiqHandlerCpsr : BitVec 32
  fiqHandlerSp : BitVec 64
  fiqHandlerActive : Bool
  /-- `fiq_pc`, `fiq_cpsr`, `fiq_gpregs` and `fiq_sp_el1`. -/
  fiq : Regs

structure State where
  hw : Regs
  handle : Regs
  ctx : TrustyCpuCtx
  /-- With what the code runs that the active handler has interrupted. -/
  interrupted : Option Regs

inductive Event
  /-- The normal world runs, up to an SMC or a FIQ. -/
  | runs (hw : Regs)
  | fiq (r0 : BitVec 64)
  | setFiqHandler (cpu : Nat) (handler stack : BitVec 64)
  /-- Another CPU sets the handler of this one. -/
  | isSet (cpsr : BitVec 32) (handler stack : BitVec 64)
  | getFiqRegs
  | fiqExit
  /-- Any other SMC, which is forwarded to Trusty and answered by it, or is not. -/
  | smc (r0 : Option (BitVec 64))

namespace State

variable (s : State)

/-- The vectors save the registers for an exception; SP_EL1 is not one of them. -/
def enter : State := { s with handle := { s.hw with spEl1 := s.handle.spEl1 } }

/-- `trusty_context_switch`: Trusty runs with a stack of its own. -/
def trustyContextSwitch : State :=
  let saved := { s with handle.spEl1 := s.hw.spEl1 }
  { saved with hw.spEl1 := saved.handle.spEl1 }

def el3Exit : State := { s with hw := { s.handle with spEl1 := s.hw.spEl1 } }

/-- `SMC_RET1` to `SMC_RET4` -/
def smcRet (xs : List (BitVec 64)) : State :=
  { s with handle.gp := fun i => xs.getD i (s.handle.gp i) }

def trustyFiqHandler (r0 : BitVec 64) : State :=
  let s := s.trustyContextSwitch
  if r0 ≠ 0 ∨ s.ctx.fiqHandlerActive then s
  else
    { s with
      ctx.fiqHandlerActive := true
      ctx.fiq := s.handle
      handle := { s.handle with
        pc := s.ctx.fiqHandlerPc, pstate := s.ctx.fiqHandlerCpsr, spEl1 := s.ctx.fiqHandlerSp } }

def setFiqHandler (cpsr : BitVec 32) (handler stack : BitVec 64) : State :=
  { s with
    ctx.fiqHandlerPc := handler, ctx.fiqHandlerCpsr := cpsr, ctx.fiqHandlerSp := stack }

def trustyFiqExit : State :=
  if ¬ s.ctx.fiqHandlerActive then s.smcRet [-2]
  else { s.trustyContextSwitch with handle := s.ctx.fiq, ctx.fiqHandlerActive := false }

/-- CPU `me` of `count`. -/
def step (me count : Nat) (s : State) : Event → State
  | .runs hw => { s with hw }
  | .fiq r0 =>
    { (s.enter.trustyFiqHandler r0).el3Exit with
      interrupted := if r0 = 0 ∧ ¬ s.ctx.fiqHandlerActive then some s.hw else s.interrupted }
  | .setFiqHandler cpu handler stack =>
    if count ≤ cpu then s.enter.el3Exit
    else if cpu = me then
      ((s.enter.setFiqHandler s.hw.pstate handler stack).smcRet [0]).el3Exit
    else (s.enter.smcRet [0]).el3Exit
  | .isSet cpsr handler stack => s.setFiqHandler cpsr handler stack
  | .getFiqRegs =>
    (s.enter.smcRet [s.ctx.fiq.pc, s.ctx.fiq.pstate.setWidth 64, s.ctx.fiq.gp 31,
      s.ctx.fiq.spEl1]).el3Exit
  | .fiqExit => { s.enter.trustyFiqExit.el3Exit with interrupted := none }
  | .smc none => (s.enter.smcRet [-5]).el3Exit
  | .smc (some r0) => (s.enter.trustyContextSwitch.smcRet [r0]).el3Exit

/-- No FIQ has been handled yet. -/
def boot (hw handle : Regs) (ctx : TrustyCpuCtx) : State :=
  ⟨hw, handle, { ctx with fiqHandlerActive := false }, none⟩

/-- What a FIQ and the exit from its handler have to do. -/
def Right (t : State) : Event → Prop
  | .fiq r0 =>
    if s.ctx.fiqHandlerActive then t.hw = s.hw ∧ t.interrupted = s.interrupted ∧ t.ctx = s.ctx
    else r0 = 0 → t.hw.pc = s.ctx.fiqHandlerPc ∧ t.hw.pstate = s.ctx.fiqHandlerCpsr ∧
      t.hw.spEl1 = s.ctx.fiqHandlerSp
  | .fiqExit => ∀ regs ∈ s.interrupted, t.hw = regs
  | _ => True

/-- SP_EL1 has the value already. -/
def StackReady : Event → Prop
  | .fiq r0 => r0 = 0 → ¬ s.ctx.fiqHandlerActive → s.hw.spEl1 = s.ctx.fiqHandlerSp
  | .fiqExit => ∀ regs ∈ s.interrupted, s.hw.spEl1 = regs.spEl1
  | _ => True

/-- The record has what the handler has interrupted. -/
def Recorded : Prop := s.interrupted = if s.ctx.fiqHandlerActive then some s.ctx.fiq else none

end State

open State

variable {me count : Nat} {s : State}

theorem step_recorded (h : s.Recorded) (e : Event) : (s.step me count e).Recorded := by
  cases e with
  | fiq r0 =>
    by_cases hr : r0 = 0 <;> cases hact : s.ctx.fiqHandlerActive <;>
      simp_all [Recorded, step, enter, trustyContextSwitch, el3Exit, trustyFiqHandler]
  | fiqExit =>
    cases hact : s.ctx.fiqHandlerActive <;>
      simp [Recorded, step, enter, el3Exit, trustyFiqExit, smcRet, hact]
  | setFiqHandler cpu =>
    rw [step]
    split_ifs <;> exact h
  | smc r0 => cases r0 <;> exact h
  | _ => exact h

theorem right_step_iff (h : s.Recorded) (e : Event) :
    s.Right (s.step me count e) e ↔ s.StackReady e := by
  cases e with
  | fiq r0 =>
    rw [Right, StackReady, step, trustyFiqHandler]
    split_ifs <;> simp_all [enter, trustyContextSwitch, el3Exit]
  | fiqExit =>
    rw [Right, StackReady, h]
    cases hact : s.ctx.fiqHandlerActive with
    | false => simp
    | true =>
      simp only [if_true, Option.mem_some_iff, forall_eq']
      simp [step, enter, trustyContextSwitch, el3Exit, trustyFiqExit, hact, Regs.ext_iff]
  | _ => exact Iff.rfl

/-- In every run: the handler of a FIQ is entered, and left, in the right way exactly if SP_EL1 has
its new value before. -/
theorem fiq_right_iff (me count : Nat) (hw handle : Regs) (ctx : TrustyCpuCtx) (es : List Event)
    (e : Event) :
    letI s := es.foldl (step me count) (boot hw handle ctx)
    s.Right (s.step me count e) e ↔ s.StackReady e :=
  right_step_iff (foldlRecOn es _ (rfl : (boot hw handle ctx).Recorded) fun _ h e _ =>
    step_recorded h e) e

/-- The handler at 0x4000 with the stack at 0x8000 is entered with SP_EL1 as it is. -/
theorem handler_on_interrupted_stack :
    letI regs : Regs := ⟨0, 0, fun _ => 0, 0x1000⟩
    letI s := [.isSet 0x3c5 0x4000 0x8000, .fiq 0].foldl (step 0 1)
      (boot regs regs ⟨0, 0, 0, false, regs⟩)
    s.hw.pc = 0x4000 ∧ s.hw.spEl1 = 0x1000 ∧ s.ctx.fiqHandlerSp = 0x8000 :=
  ⟨rfl, rfl, rfl⟩

end TrustedFirmware.Trusty.Fiq
