import TrustedFirmware.Lib.Run
import Mathlib.Data.BitVec

/-!
# The routing of interrupts to EL3 (`interrupt_mgmt.c`, with the lines of `plat_gicv3.c`)

Three types of interrupts share the two lines of a security state. A call writes the trap bit of a
line from the routing model of one type, whatever the others on that line need. So the bits are
right as long as no call clears one that another type needs, and none sets one for a type that has
no handler or is disabled.
-/

namespace TrustedFirmware.Bl31

open Lib Function

inductive SecurityState
  | secure | nonSecure
  deriving DecidableEq, Repr

/-- `INTR_TYPE_S_EL1`, `INTR_TYPE_EL3` and `INTR_TYPE_NS`. -/
inductive IntrType
  | sEl1 | el3 | ns
  deriving DecidableEq, Repr

inductive Line
  | irq | fiq
  deriving DecidableEq, Repr

/-- The position of `SCR_IRQ_BIT` or `SCR_FIQ_BIT`. -/
def Line.bitPos : Line → Nat
  | .irq => 1
  | .fiq => 2

/-- `plat_interrupt_type_to_line`. -/
def platInterruptTypeToLine : IntrType → SecurityState → Line
  | .sEl1, .secure => .irq
  | .sEl1, .nonSecure => .fiq
  | .ns, .secure => .fiq
  | .ns, .nonSecure => .irq
  | .el3, _ => .fiq

/-- `get_interrupt_rm_flag`. -/
def getInterruptRmFlag (flags : BitVec 32) : SecurityState → Bool
  | .secure => flags.getLsbD 0
  | .nonSecure => flags.getLsbD 1

/-- `intr_type_desc_t`; of the handler only whether there is one. -/
structure IntrTypeDesc where
  handler : Bool
  flags : BitVec 32
  scrEl3 : SecurityState → BitVec 32

/-- What a CPU sees: the descriptors and the `SCR_EL3` of its contexts, where there is one.
`disabled` is not in the code. It keeps which types have been disabled here. -/
structure Cpu where
  descs : IntrType → IntrTypeDesc
  ctx : SecurityState → Option (BitVec 32)
  disabled : IntrType → SecurityState → Bool

def einval : Int := -22
def ealready : Int := -37

/-- `flag << bit_pos`. -/
def flagBit (flag : Bool) (line : Line) : BitVec 32 :=
  (BitVec.ofBool flag).setWidth 32 <<< line.bitPos

/-- `cm_write_scr_el3_bit`. -/
def cmWriteScrEl3Bit (scrEl3 : BitVec 32) (line : Line) (flag : Bool) : BitVec 32 :=
  scrEl3 &&& ~~~(1#32 <<< line.bitPos) ||| flagBit flag line

/-- `validate_routing_model`. With `EL3_EXCEPTION_HANDLING` the EL3 interrupts have one model. -/
def validateRoutingModel (el3ExceptionHandling : Bool) (type : IntrType) (flags : BitVec 32) :
    Int :=
  let rm := flags &&& 3
  match type with
  | .sEl1 => if rm = 2 ∨ rm = 3 then 0 else einval
  | .ns => if rm = 0 ∨ rm = 1 then 0 else einval
  | .el3 => if rm = 3 ∨ rm = 2 ∧ ¬ el3ExceptionHandling then 0 else einval

namespace Cpu

/-- `get_scr_el3_from_routing_model`. -/
def getScrEl3FromRoutingModel (s : Cpu) (ss : SecurityState) : BitVec 32 :=
  (s.descs .ns).scrEl3 ss ||| (s.descs .sEl1).scrEl3 ss ||| (s.descs .el3).scrEl3 ss

def setDesc (s : Cpu) (type : IntrType) (desc : IntrTypeDesc) : Cpu :=
  { s with descs := update s.descs type desc }

/-- Writes the bit of a type, if there is a context. -/
def writeBit (s : Cpu) (type : IntrType) (ss : SecurityState) (flag : Bool) : Cpu :=
  let scrEl3 := (s.ctx ss).map (cmWriteScrEl3Bit · (platInterruptTypeToLine type ss) flag)
  { s with ctx := update s.ctx ss scrEl3 }

/-- `set_scr_el3_from_rm`. -/
def setScrEl3FromRm (s : Cpu) (type : IntrType) (flags : BitVec 32) (ss : SecurityState) : Cpu :=
  let flag := getInterruptRmFlag flags ss
  let bit := flagBit flag (platInterruptTypeToLine type ss)
  (s.setDesc type { s.descs type with
    scrEl3 := update (s.descs type).scrEl3 ss bit }).writeBit type ss flag

/-- `set_routing_model`. -/
def setRoutingModel (ehf : Bool) (s : Cpu) (type : IntrType) (flags : BitVec 32) : Int × Cpu :=
  let rc := validateRoutingModel ehf type flags
  if rc ≠ 0 then (rc, s)
  else (0, ((s.setDesc type { s.descs type with flags }).setScrEl3FromRm type flags
    .secure).setScrEl3FromRm type flags .nonSecure)

/-- `register_interrupt_type_handler`. -/
def registerInterruptTypeHandler (ehf : Bool) (s : Cpu) (type : IntrType) (handler : Bool)
    (flags : BitVec 32) : Int × Cpu :=
  if ¬ handler then (einval, s)
  else if flags &&& 0xFFFFFFFC ≠ 0 then (einval, s)
  else if (s.descs type).handler then (ealready, s)
  else
    let (rc, s') := s.setRoutingModel ehf type flags
    if rc ≠ 0 then (rc, s')
    else (0, s'.setDesc type { s'.descs type with handler := true })

def setDisabled (s : Cpu) (type : IntrType) (ss : SecurityState) (b : Bool) : Cpu :=
  { s with disabled := update s.disabled type (update (s.disabled type) ss b) }

/-- The bit of a type is written from these flags; `none` is a failed assertion. -/
def writeLocal (s : Cpu) (type : IntrType) (ss : SecurityState) (flags : BitVec 32)
    (disabled : Bool) : Option Cpu :=
  if (s.descs type).handler ∧ (s.ctx ss).isSome then
    some ((s.writeBit type ss (getInterruptRmFlag flags ss)).setDisabled type ss disabled)
  else none

/-- `disable_intr_rm_local`, with `INTR_DEFAULT_RM`. -/
def disableIntrRmLocal (s : Cpu) (type : IntrType) (ss : SecurityState) : Option Cpu :=
  s.writeLocal type ss 0 true

/-- `enable_intr_rm_local`. -/
def enableIntrRmLocal (s : Cpu) (type : IntrType) (ss : SecurityState) : Option Cpu :=
  s.writeLocal type ss (s.descs type).flags false

end Cpu

inductive Call
  | register (type : IntrType) (handler : Bool) (flags : BitVec 32)
  | setRoutingModel (type : IntrType) (flags : BitVec 32)
  | disable (type : IntrType) (ss : SecurityState)
  | enable (type : IntrType) (ss : SecurityState)

def step (ehf : Bool) (s : Cpu) : Call → Option Cpu
  | .register type handler flags => some (s.registerInterruptTypeHandler ehf type handler flags).2
  | .setRoutingModel type flags => some (s.setRoutingModel ehf type flags).2
  | .disable type ss => s.disableIntrRmLocal type ss
  | .enable type ss => s.enableIntrRmLocal type ss

/-- No handlers yet. -/
def Cpu.init (ctx : SecurityState → Option (BitVec 32)) : Cpu :=
  ⟨fun _ => ⟨false, 0, fun _ => 0⟩, ctx, fun _ _ => false⟩

/-! ### What the bits should be -/

namespace Cpu

/-- The type has a handler and is to be taken to EL3 from the security state. -/
def wants (s : Cpu) (type : IntrType) (ss : SecurityState) : Bool :=
  (s.descs type).handler && getInterruptRmFlag (s.descs type).flags ss && !s.disabled type ss

/-- Some type on the line does, apart from `but`. -/
def needed (s : Cpu) (ss : SecurityState) (line : Line) (but : Option IntrType) : Bool :=
  [.sEl1, .el3, .ns].any fun type =>
    but ≠ some type && platInterruptTypeToLine type ss = line && s.wants type ss

/-- **The trap bits are right.** -/
structure Routed (s : Cpu) : Prop where
  bits : ∀ ss scrEl3, s.ctx ss = some scrEl3 → ∀ line : Line,
    scrEl3.getLsbD line.bitPos = s.needed ss line none
  cached : ∀ ss scrEl3, s.ctx ss = some scrEl3 → (∀ type, s.disabled type ss = false) →
    ∀ line : Line, scrEl3.getLsbD line.bitPos = (s.getScrEl3FromRoutingModel ss).getLsbD line.bitPos

/-- The bit of a type may be written: it is not cleared while another type needs it, and not set
for a type without a handler or a disabled one. -/
def fits (s : Cpu) (type : IntrType) (handler : Bool) (flags : BitVec 32) (ss : SecurityState) :
    Bool :=
  if getInterruptRmFlag flags ss then handler && !s.disabled type ss
  else (s.ctx ss).isNone || !s.needed ss (platInterruptTypeToLine type ss) (some type)

/-- A registration is refused: there is no handler, a flag is reserved, the type has a handler
already or the routing model is not one of the type. -/
def refused (ehf : Bool) (s : Cpu) (type : IntrType) (handler : Bool) (flags : BitVec 32) : Bool :=
  !handler || flags &&& 0xFFFFFFFC ≠ 0 || (s.descs type).handler ||
    validateRoutingModel ehf type flags ≠ 0

/-- The condition on a call. -/
def ok (ehf : Bool) (s : Cpu) : Call → Bool
  | .register type handler flags => s.refused ehf type handler flags ||
      s.fits type true flags .secure && s.fits type true flags .nonSecure
  | .setRoutingModel type flags =>
    validateRoutingModel ehf type flags ≠ 0 || s.fits type (s.descs type).handler flags .secure &&
        s.fits type (s.descs type).handler flags .nonSecure
  | .disable type ss => !s.needed ss (platInterruptTypeToLine type ss) (some type)
  | .enable type ss => getInterruptRmFlag (s.descs type).flags ss ||
      !s.needed ss (platInterruptTypeToLine type ss) (some type)

end Cpu

/-! ### One bit -/

@[simp] theorem flagBit_getLsbD (flag : Bool) (line line' : Line) :
    (flagBit flag line).getLsbD line'.bitPos = (decide (line = line') && flag) := by
  cases flag <;> cases line <;> cases line' <;> rfl

@[simp] theorem cmWriteScrEl3Bit_getLsbD (scrEl3 : BitVec 32) (line line' : Line) (flag : Bool) :
    (cmWriteScrEl3Bit scrEl3 line flag).getLsbD line'.bitPos =
      if line = line' then flag else scrEl3.getLsbD line'.bitPos := by
  rw [cmWriteScrEl3Bit, BitVec.getLsbD_or, flagBit_getLsbD]
  cases line <;> cases line' <;> simp [Line.bitPos]

variable {scrEl3 : BitVec 32}

namespace Cpu

variable {s s' : Cpu} {type : IntrType} {flags : BitVec 32} {ss : SecurityState}

theorem needed_eq (s : Cpu) (type : IntrType) (ss : SecurityState) (line : Line) :
    s.needed ss line none = (platInterruptTypeToLine type ss = line && s.wants type ss ||
      s.needed ss line (some type)) := by
  cases type <;> simp [needed] <;> grind

theorem needed_congr {line : Line} {but : Option IntrType}
    (h : ∀ type, but ≠ some type → s'.wants type ss = s.wants type ss) :
    s'.needed ss line but = s.needed ss line but := by
  refine List.any_congr rfl fun type => ?_
  by_cases hbut : but = some type
  · simp [hbut]
  · rw [h type hbut]

/-- The bits that the code keeps right, and what it needs for that. -/
structure Inv (s : Cpu) : Prop where
  scrEl3 : ∀ type ss, (s.descs type).scrEl3 ss =
    flagBit (getInterruptRmFlag (s.descs type).flags ss) (platInterruptTypeToLine type ss)
  handler : ∀ type ss, getInterruptRmFlag (s.descs type).flags ss = true →
    (s.descs type).handler = true
  bits : ∀ ss scrEl3, s.ctx ss = some scrEl3 → ∀ line : Line,
    scrEl3.getLsbD line.bitPos = s.needed ss line none

/-- What has been cached is what is needed, where nothing is disabled. -/
theorem Inv.getLsbD_cached (h : Inv s) (hnone : ∀ type, s.disabled type ss = false) (line : Line) :
    (s.getScrEl3FromRoutingModel ss).getLsbD line.bitPos = s.needed ss line none := by
  have hwn : ∀ type, s.wants type ss = getInterruptRmFlag (s.descs type).flags ss := by
    intro type
    have hhan := h.handler type ss
    cases hflag : getInterruptRmFlag (s.descs type).flags ss <;> simp_all [wants]
  simp only [getScrEl3FromRoutingModel, BitVec.getLsbD_or, h.scrEl3, flagBit_getLsbD, needed,
    hwn, List.any_cons, List.any_nil]
  cases ss <;> cases line <;> simp [platInterruptTypeToLine, Bool.or_comm]

theorem Inv.routed (h : Inv s) : Routed s where
  bits := h.bits
  cached ss scrEl3 hctx hnone line := by rw [h.bits ss scrEl3 hctx line, h.getLsbD_cached hnone]

/-- **One write.** The bit of a type has been written, and nothing else has changed on the line. -/
theorem Inv.bits_write (h : Inv s) {flag : Bool}
    (hoths : ∀ t, t ≠ type → s'.wants t ss = s.wants t ss)
    (hctx : s'.ctx ss = (s.ctx ss).map (cmWriteScrEl3Bit · (platInterruptTypeToLine type ss) flag))
    (hflag : (s.ctx ss).isSome → flag = (s'.wants type ss ||
      s.needed ss (platInterruptTypeToLine type ss) (some type))) (hscr : s'.ctx ss = some scrEl3)
    (line : Line) :
    scrEl3.getLsbD line.bitPos = s'.needed ss line none := by
  obtain ⟨old, hold, rfl⟩ := Option.map_eq_some_iff.mp (hctx.symm.trans hscr)
  have hrest : s'.needed ss line (some type) = s.needed ss line (some type) :=
    needed_congr fun t ht => hoths t fun heq => ht (congrArg some heq.symm)
  rw [cmWriteScrEl3Bit_getLsbD, needed_eq s' type, hrest]
  split_ifs with hline
  · rw [hflag (by rw [hold]; rfl), hline]
    simp
  · rw [h.bits ss old hold line, needed_eq s type]
    simp [hline]

theorem Inv.bits_keep (h : Inv s) (hwn : ∀ t, s'.wants t ss = s.wants t ss)
    (hctx : s'.ctx ss = s.ctx ss) (hscr : s'.ctx ss = some scrEl3)
    (line : Line) :
    scrEl3.getLsbD line.bitPos = s'.needed ss line none := by
  rw [h.bits ss scrEl3 (hctx.symm.trans hscr), needed_congr fun t _ => hwn t]

/-! ### The calls -/

/-- The state with another routing model for a type. -/
def withModel (s : Cpu) (type : IntrType) (handler : Bool) (flags : BitVec 32) : Cpu where
  descs := update s.descs type ⟨handler, flags, fun ss =>
    flagBit (getInterruptRmFlag flags ss) (platInterruptTypeToLine type ss)⟩
  ctx ss := (s.ctx ss).map
    (cmWriteScrEl3Bit · (platInterruptTypeToLine type ss) (getInterruptRmFlag flags ss))
  disabled := s.disabled

theorem setRoutingModel_eq (ehf : Bool) (s : Cpu) (type : IntrType) (flags : BitVec 32) :
    s.setRoutingModel ehf type flags = if validateRoutingModel ehf type flags ≠ 0
      then (validateRoutingModel ehf type flags, s)
      else (0, s.withModel type (s.descs type).handler flags) := by
  have hmod : ((s.setDesc type { s.descs type with flags }).setScrEl3FromRm type flags
      .secure).setScrEl3FromRm type flags .nonSecure =
        s.withModel type (s.descs type).handler flags := by
    simp only [setScrEl3FromRm, setDesc, writeBit, withModel, Cpu.mk.injEq, update_self,
      update_idem, and_true]
    refine ⟨congrArg _ (congrArg _ ?_), ?_⟩ <;> funext ss <;> cases ss <;> simp
  rw [setRoutingModel, hmod]

theorem Inv.withModel (h : Inv s) {handler : Bool}
    (hhan : (s.descs type).handler = true → handler = true)
    (hfits : s.fits type handler flags .secure = true ∧
      s.fits type handler flags .nonSecure = true) :
    Inv (s.withModel type handler flags) := by
  have hfit : ∀ ss, s.fits type handler flags ss = true := by
    rintro (_ | _)
    exacts [hfits.1, hfits.2]
  refine ⟨fun t ss => ?_, fun t ss => ?_, fun ss scrEl3 hscr => ?_⟩
  · by_cases ht : t = type <;> simp [Cpu.withModel, ht, h.scrEl3]
  · obtain rfl | ht := eq_or_ne t type
    · intro hflag
      have := hfit ss
      simp_all [Cpu.withModel, fits]
    · simpa [Cpu.withModel, ht] using h.handler t ss
  · refine h.bits_write (fun t ht => by simp [wants, Cpu.withModel, ht]) rfl (fun hsome => ?_) hscr
    have := hfit ss
    cases hflag : getInterruptRmFlag flags ss <;> cases hctx : s.ctx ss <;>
      simp_all [wants, Cpu.withModel, fits]

theorem registerInterruptTypeHandler_snd (ehf : Bool) (s : Cpu) (type : IntrType) (handler : Bool)
    (flags : BitVec 32) :
    (s.registerInterruptTypeHandler ehf type handler flags).2 =
      if s.refused ehf type handler flags then s else s.withModel type true flags := by
  simp only [registerInterruptTypeHandler, setRoutingModel_eq, refused]
  split_ifs <;> simp_all [setDesc, Cpu.withModel]

/-- A type is disabled or enabled in one security state. -/
theorem Inv.writeLocal (h : Inv s) {disabled : Bool}
    (hstep : s.writeLocal type ss flags disabled = some s')
    (hflag : (s.descs type).handler = true → getInterruptRmFlag flags ss =
      ((getInterruptRmFlag (s.descs type).flags ss && !disabled) ||
        s.needed ss (platInterruptTypeToLine type ss) (some type))) : Inv s' := by
  simp only [Cpu.writeLocal, Option.ite_none_right_eq_some] at hstep
  obtain ⟨⟨hhan, -⟩, hs'⟩ := hstep
  cases hs'
  refine ⟨h.scrEl3, h.handler, fun ss' scrEl3 hscr => ?_⟩
  obtain rfl | hss := eq_or_ne ss' ss
  · refine h.bits_write (fun t ht => by simp [wants, writeBit, setDisabled, ht])
      (update_self ..) (fun _ => ?_) hscr
    simpa [wants, writeBit, setDisabled, hhan] using hflag hhan
  · refine h.bits_keep (fun t => ?_) (update_of_ne hss ..) hscr
    by_cases ht : t = type <;> simp [wants, writeBit, setDisabled, ht, hss]

theorem Inv.step {ehf : Bool} {call : Call} (h : Inv s) (hok : s.ok ehf call = true)
    (hstep : Bl31.step ehf s call = some s') : Inv s' := by
  cases call with
  | register type handler flags =>
    cases hstep
    rw [registerInterruptTypeHandler_snd]
    split_ifs with href
    · exact h
    · exact h.withModel (fun _ => rfl) (by simpa [ok, href] using hok)
  | setRoutingModel =>
    cases hstep
    simp only [ok, setRoutingModel_eq] at hok ⊢
    split_ifs with hrc
    · exact h
    · exact h.withModel id (by simpa [hrc] using hok)
  | disable type ss =>
    refine h.writeLocal hstep fun _ => ?_
    cases ss <;> simpa [getInterruptRmFlag, ok] using hok
  | enable type ss =>
    refine h.writeLocal hstep fun _ => ?_
    cases hflag : getInterruptRmFlag (s.descs type).flags ss <;> simp_all [ok]

theorem inv_init {ctx : SecurityState → Option (BitVec 32)}
    (hclr : ∀ ss scrEl3, ctx ss = some scrEl3 → ∀ line : Line,
      scrEl3.getLsbD line.bitPos = false) : Inv (init ctx) where
  scrEl3 type ss := by cases ss <;> simp [init, getInterruptRmFlag, flagBit]
  handler type ss h := by cases ss <;> simp [init, getInterruptRmFlag] at h
  bits ss scrEl3 h line := by simp [hclr ss scrEl3 h line, needed, wants, init]

end Cpu

/-- **The trap bits are right** in every state that calls lead to that fit what the other types
need. -/
theorem scr_el3_routed (ehf : Bool) (ctx : SecurityState → Option (BitVec 32))
    (hclear : ∀ ss scrEl3, ctx ss = some scrEl3 → ∀ line : Line,
      scrEl3.getLsbD line.bitPos = false) (calls : List Call) (s : Cpu)
    (hok : Along (step ehf) (fun s call => s.ok ehf call = true) (Cpu.init ctx) calls)
    (hrun : run (step ehf) (Cpu.init ctx) calls = some s) : s.Routed :=
  (run_invariant_along (fun _ _ _ => Cpu.Inv.step)
    (Cpu.inv_init hclear) hok hrun).routed

/-- Two contexts, of the secure world and of the normal world. -/
def sampleCtx : SecurityState → Option (BitVec 32)
  | .secure => some 0
  | .nonSecure => some 1

/-- The handlers of a secure payload and of EL3, which is disabled in the secure world for a
while. -/
def dispatcherCalls : List Call :=
  [.register .sEl1 true 2, .register .el3 true 3, .disable .el3 .secure, .enable .el3 .secure,
    .setRoutingModel .sEl1 3]

theorem scr_el3_routed_two : ∃ s, run (step false) (Cpu.init sampleCtx) dispatcherCalls = some s ∧
    s.ctx .secure = some 6 ∧ s.ctx .nonSecure = some 5 ∧ s.Routed := by
  refine exists_some_imp (q := fun s => s.ctx .secure = some 6 ∧ s.ctx .nonSecure = some 5)
    (by decide) fun s hrun ⟨hsec, hns⟩ => ⟨hsec, hns, ?_⟩
  refine scr_el3_routed false sampleCtx ?_ dispatcherCalls s (by decide) hrun
  rintro (_ | _) scrEl3 hscr line <;> cases hscr <;> cases line <;> rfl

/-- Non-secure interrupts that are not to be taken to EL3 are registered after those of EL3. -/
def clearingCalls : List Call := [.register .el3 true 3, .register .ns true 0]

/-- The FIQ bit of the secure world is cleared, although EL3 interrupts need it. -/
theorem el3_interrupts_not_trapped :
    ∃ s, run (step false) (Cpu.init sampleCtx) clearingCalls = some s ∧ s.ctx .secure = some 0 ∧
      s.wants .el3 .secure = true ∧
      (s.getScrEl3FromRoutingModel .secure).getLsbD Line.fiq.bitPos = true ∧ ¬ s.Routed := by
  refine exists_some_imp (q := fun s => s.ctx .secure = some 0 ∧ s.wants .el3 .secure = true ∧
    (s.getScrEl3FromRoutingModel .secure).getLsbD Line.fiq.bitPos = true ∧
    s.needed .secure .fiq none = true) (by decide)
    fun s _ ⟨hctx, hwn, hcac, hnee⟩ => ⟨hctx, hwn, hcac, fun hrtd => ?_⟩
  have hbit := hrtd.bits .secure 0 hctx .fiq
  rw [hnee] at hbit
  cases hbit

end TrustedFirmware.Bl31
