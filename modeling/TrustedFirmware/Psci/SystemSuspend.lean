import TrustedFirmware.Psci.Stats

/-!
# `PSCI_SYSTEM_SUSPEND` among the calls of the other CPUs (`psci_main.c`)

Before it suspends the system, the caller checks that it is the last CPU that is on:
`psci_is_last_on_cpu` reads the affinity states of the other CPUs, one after the other and without a
lock. `CPU_ON` is two steps here, since between them the target is in `ON_PENDING` whatever becomes
of it.

Once all the other CPUs are off, there is nobody to turn one on, and all of them have left a request
for `PLAT_MAX_OFF_STATE` at every level. So the system goes into the very state that the platform
has asked for. But a CPU that the check has passed can be turned on by one that it has not got to,
which then turns itself off.
-/

namespace TrustedFirmware.Psci.Domains

open Lib Option Function

variable {cfg : Config}

/-! ### The system -/

variable (cfg) in
/-- Where a CPU is in a call that has not returned yet, outside the critical sections. -/
inductive CallPc
  | none
  /-- In `psci_cpu_on_start`, with the target in `ON_PENDING`; `ok` is what becomes of
  `pwr_domain_on`. -/
  | turningOn (target : Nat) (ok : Bool)
  /-- In `psci_is_last_on_cpu`, about to read the state of the CPU `next`. -/
  | scanning (next : Nat)
  /-- In `psci_system_suspend`, past the check. -/
  | checked
  /-- About to take the locks in `psci_cpu_suspend_start`, with the state that the platform has
  asked for. -/
  | starting (info : StateInfo cfg)
  /-- The system is suspended to `target`. -/
  | down (info target : StateInfo cfg)

variable (cfg) in
structure SysState where
  base : State cfg
  call : Nat → CallPc cfg

def CallPc.isNone : CallPc cfg → Bool
  | .none => true
  | _ => false

/-- The call is for turning on this CPU, and holds its lock. -/
def CallPc.turnsOn (target : Nat) : CallPc cfg → Bool
  | .turningOn t _ => t = target
  | _ => false

/-- `psci_is_last_on_cpu` has passed this CPU. -/
def CallPc.hasRead (cpu : Nat) : CallPc cfg → Bool
  | .scanning next => cpu < next
  | _ => false

def SysState.setCall (s : SysState cfg) (cpu : Nat) (pc : CallPc cfg) : SysState cfg :=
  { s with call := update s.call cpu pc }

variable (cfg) in
inductive SysEvent
  /-- A step of the other calls: anything but `CPU_ON`. -/
  | other (e : Event cfg)
  | cpuOn (caller target : Nat) (ok : Bool)
  | cpuOnReturn (caller : Nat)
  | systemSuspend (cpu : Nat)
  /-- One round of `psci_is_last_on_cpu`, or its return. -/
  | readState (cpu : Nat)
  /-- `psci_validate_entry_point` and `psci_query_sys_suspend_pwrstate`. -/
  | query (cpu : Nat) (valid : Bool) (info : StateInfo cfg)
  /-- `psci_cpu_suspend_start`; with an interrupt pending it returns. -/
  | suspendStart (cpu : Nat) (pending : Bool)

/-- The lock of this CPU is free. -/
def SysState.unlocked (s : SysState cfg) (cpu : Nat) : Bool :=
  (List.range cfg.platformCoreCount).all fun c => !(s.call c).turnsOn cpu

/-- The CPU is in no call. One that comes out of reset waits, in `psci_cpu_on_finish`, for the
`CPU_ON` that has turned it on. -/
def SysState.allows (s : SysState cfg) : Event cfg → Bool
  | .cpuOn _ _ _ => false
  | .warmBoot cpu => s.unlocked cpu
  | .cpuOff cpu _ => (s.call cpu).isNone
  | .setOff cpu => (s.call cpu).isNone
  | .cpuSuspend cpu _ _ _ => (s.call cpu).isNone
  | .wakeUp cpu => (s.call cpu).isNone

/-- A CPU that comes out of reset is in no call any more. -/
def SysState.callAfter (s : SysState cfg) : Event cfg → Nat → CallPc cfg
  | .warmBoot cpu => update s.call cpu .none
  | _ => s.call

/-- `psci_cpu_on_start`, up to the write of `ON_PENDING`. -/
def SysState.cpuOn (s : SysState cfg) (caller target : Nat) (ok : Bool) : SysState cfg :=
  if (s.base.cpu target).affInfoState = .off then
    { s with base := psciCpuOnStart target true s.base }.setCall caller (.turningOn target ok)
  else s

/-- The rest of `psci_cpu_on_start`: the state of the target is restored if `pwr_domain_on` has
failed. -/
def SysState.cpuOnReturn (s : SysState cfg) (caller target : Nat) (ok : Bool) : SysState cfg :=
  if ok then s.setCall caller .none
  else
    { s with base := s.base.setCpu target { s.base.cpu target with affInfoState := .off } }.setCall
      caller .none

/-- One round of `psci_is_last_on_cpu`. -/
def SysState.readState (s : SysState cfg) (cpu next : Nat) : Option (SysState cfg) :=
  if next < cfg.platformCoreCount then
    if next = cpu then
      if (s.base.cpu cpu).affInfoState = .on then some (s.setCall cpu (.scanning (next + 1)))
      else none
    else if (s.base.cpu next).affInfoState ≠ .off then some (s.setCall cpu .none)
    else some (s.setCall cpu (.scanning (next + 1)))
  else some (s.setCall cpu .checked)

/-- `psci_system_suspend`, from the check to `psci_cpu_suspend_start`; `none` is a failed
assertion. -/
def SysState.query (s : SysState cfg) (cpu : Nat) (valid : Bool) (info : StateInfo cfg) :
    Option (SysState cfg) :=
  if valid = false then some (s.setCall cpu .none)
  else if psciFindTargetSuspendLvl info < cfg.platMaxPwrLvl then some (s.setCall cpu .none)
  else if psciValidateSuspendReq info true = .success ∧
      isLocalStateOff (info cfg.platMaxPwrLvl) = true then
    some (s.setCall cpu (.starting info))
  else none

/-- `psci_cpu_suspend_start(PLAT_MAX_PWR_LVL)` for a power-down state. -/
def SysState.suspendStart (t : Tree) (s : SysState cfg) (cpu : Nat) (info : StateInfo cfg)
    (pending : Bool) : Option (SysState cfg) :=
  (psciCpuSuspendStart t cpu cfg.platMaxPwrLvl info true pending s.base).map fun r =>
    match r.2 with
    | .down _ _ target => { s with base := r.1 }.setCall cpu (.down info target)
    | _ => { s with base := r.1 }.setCall cpu .none

def sysStep (t : Tree) (s : SysState cfg) : SysEvent cfg → Option (SysState cfg)
  | .other e =>
    if s.allows e then (next t s.base e).map fun base => ⟨base, s.callAfter e⟩ else none
  | .cpuOn caller target ok =>
    if caller < cfg.platformCoreCount ∧ target < cfg.platformCoreCount ∧
        s.base.pos caller = .running ∧ (s.call caller).isNone ∧ s.unlocked target then
      some (s.cpuOn caller target ok)
    else none
  | .cpuOnReturn caller =>
    match s.call caller with
    | .turningOn target ok => some (s.cpuOnReturn caller target ok)
    | _ => none
  | .systemSuspend cpu =>
    if cpu < cfg.platformCoreCount ∧ s.base.pos cpu = .running ∧ (s.call cpu).isNone then
      some (s.setCall cpu (.scanning 0))
    else none
  | .readState cpu =>
    match s.call cpu with
    | .scanning next => s.readState cpu next
    | _ => none
  | .query cpu valid info =>
    match s.call cpu with
    | .checked => s.query cpu valid info
    | _ => none
  | .suspendStart cpu pending =>
    match s.call cpu with
    | .starting info => s.suspendStart t cpu info pending
    | _ => none

/-- The system after the boot of the CPU `c`. -/
def sysBoot (t : Tree) (c : Nat) : SysState cfg := ⟨(statBoot t c).state, fun _ => .none⟩

/-! ### What a call relies on -/

/-- The CPUs below `n` other than `c` are off. -/
def OthersOff (s : State cfg) (c n : Nat) : Prop :=
  ∀ j < n, j ≠ c → (s.cpu j).affInfoState = .off

variable (cfg) in
/-- The platform asks for a state in which every level is powered down or retains its state. -/
def Deep (info : StateInfo cfg) : Prop := ∀ l ≤ cfg.platMaxPwrLvl, info l ≠ localStateRun cfg

/-- What holds of a call, by where it is. -/
def CallOk (s : State cfg) (c : Nat) : CallPc cfg → Prop
  | .none => True
  | .turningOn target _ => s.pos c = .running ∧ target < cfg.platformCoreCount ∧
      s.pos target = .off
  | .scanning next => s.pos c = .running ∧ next ≤ cfg.platformCoreCount ∧ OthersOff s c next
  | .checked => s.pos c = .running ∧ OthersOff s c cfg.platformCoreCount
  | .starting info => s.pos c = .running ∧ OthersOff s c cfg.platformCoreCount ∧ Deep cfg info
  | .down info target => s.pos c = .suspended ∧ OthersOff s c cfg.platformCoreCount ∧
      ∀ l ≤ cfg.platMaxPwrLvl, target l = info l

variable (T : PowerTree cfg) in
structure SysInv (s : SysState cfg) : Prop where
  tree : TreeInv T s.base
  calls : ∀ c < cfg.platformCoreCount, CallOk s.base c (s.call c)
  /-- Only the CPUs that there are make calls. -/
  idle : ∀ c, cfg.platformCoreCount ≤ c → s.call c = .none

variable {T : PowerTree cfg} {s s' : State cfg}

/-! ### What a step leaves alone -/

/-- Only the CPU `c` has changed. -/
def Others (c : Nat) (s s' : State cfg) : Prop :=
  ∀ j ≠ c, s'.cpu j = s.cpu j ∧ s'.pos j = s.pos j

variable {c : Nat} {nodes : List Nat} {t : Tree} {info : StateInfo cfg}
  {r : State cfg × StatsCall cfg} {pending : Bool} {pc : CallPc cfg} {x x' : SysState cfg}

theorem Others.of_eq (hcpu : s'.cpu = s.cpu) (hpos : s'.pos = s.pos) : Others c s s' :=
  fun j _ => ⟨congrFun hcpu j, congrFun hpos j⟩

theorem Others.setCpu {d : CpuData cfg} (h : Others c s s') : Others c s (s'.setCpu c d) := by
  intro j hj
  simp [State.setCpu, hj, h j hj]

theorem Others.goto {p : Position} (h : Others c s s') : Others c s (s'.goto c p) := by
  intro j hj
  simp [State.goto, hj, h j hj]

theorem Others.psciSetPwrDomainsToRun (h : Others c s s') :
    Others c s (psciSetPwrDomainsToRun c nodes s') := by
  intro j hj
  simp [psciSetPwrDomainsToRun_cpu, psciSetPwrDomainsToRun_pos, hj, h j hj]

theorem keepRunning_rest (c : Nat) (k lvl : Nat) (info : StateInfo cfg) (s : State cfg) :
    (keepRunning c k lvl info s).2.cpu = s.cpu ∧ (keepRunning c k lvl info s).2.pos = s.pos := by
  induction k generalizing lvl info s with
  | zero => exact ⟨rfl, rfl⟩
  | succ k ih => exact ih (lvl + 1) _ _

theorem coordinate_rest {nodes : List Nat} {lvl : Nat} {info : StateInfo cfg} {s : State cfg}
    {r : StateInfo cfg × State cfg} (h : coordinate t c lvl nodes info s = some r) :
    r.2.cpu = s.cpu ∧ r.2.pos = s.pos := by
  induction nodes generalizing lvl info s with
  | nil =>
    cases h
    exact ⟨rfl, rfl⟩
  | cons n nodes ih =>
    obtain ⟨reqStates, -, h⟩ := bind_eq_some_iff.mp h
    obtain ⟨target, -, h⟩ := bind_eq_some_iff.mp h
    split_ifs at h with hrun
    · cases h
      exact keepRunning_rest c _ _ _ _
    · obtain ⟨hcpu, hpos⟩ := ih h
      exact ⟨hcpu, hpos⟩

/-- Of the CPUs, `psci_do_state_coordination` writes only the state of the caller. -/
theorem psciDoStateCoordination_rest {r : StateInfo cfg × State cfg}
    (h : psciDoStateCoordination t c nodes info s = some r) :
    r.2.cpu = update s.cpu c { s.cpu c with localState := r.1 0 } ∧ r.2.pos = s.pos := by
  obtain ⟨r₁, hr₁, rfl⟩ := map_eq_some_iff.mp h
  obtain ⟨hcpu, hpos⟩ := coordinate_rest hr₁
  obtain ⟨-, hcpu', hpos'⟩ := setTargetStates_rest r₁.1 nodes 1
    (r₁.2.setCpu c { r₁.2.cpu c with localState := r₁.1 0 })
  refine ⟨hcpu'.trans ?_, hpos'.trans hpos⟩
  simp [State.setCpu, hcpu]

theorem psciDoStateCoordination_others {r : StateInfo cfg × State cfg}
    (h : psciDoStateCoordination t c nodes info s = some r) : Others c s r.2 := by
  obtain ⟨hcpu, hpos⟩ := psciDoStateCoordination_rest h
  intro j hj
  simp [hcpu, hpos, hj]

theorem psciWarmbootEntrypoint_others (h : psciWarmbootEntrypoint t c s = some r) :
    (s.cpu c).affInfoState ≠ .off ∧ Others c s r.1 := by
  obtain ⟨haff, h⟩ := ite_none_left_eq_some.mp h
  obtain ⟨nodes, -, h⟩ := bind_eq_some_iff.mp h
  obtain ⟨s₁, hfin, h⟩ := bind_eq_some_iff.mp h
  cases h
  have hoths : Others c s s₁ := by
    rw [warmbootFinish] at hfin
    split_ifs at hfin with hpend
    · cases hfin
      exact Others.of_eq rfl rfl
    · rw [psciCpuSuspendFinish, ite_none_right_eq_some] at hfin
      cases hfin.2
      exact (Others.of_eq rfl rfl).setCpu
  exact ⟨haff, hoths.psciSetPwrDomainsToRun.goto⟩

theorem psciDoCpuOff_others {denied : Bool} (h : psciDoCpuOff t c denied s = some r) :
    Others c s r.1 := by
  obtain ⟨nodes, -, h⟩ := bind_eq_some_iff.mp h
  cases denied with
  | true =>
    cases h
    exact Others.of_eq rfl rfl
  | false =>
    obtain ⟨r', hr', h⟩ := bind_eq_some_iff.mp h
    cases h
    exact (psciDoStateCoordination_others hr').goto

variable {isPowerDownState : Bool} {e : Event cfg}

theorem psciCpuSuspendStart_others {e : Nat}
    (h : psciCpuSuspendStart t c e info isPowerDownState pending s = some r) :
    Others c s r.1 := by
  obtain ⟨nodes, -, h⟩ := bind_eq_some_iff.mp h
  cases pending with
  | true =>
    cases h
    exact Others.of_eq rfl rfl
  | false =>
    obtain ⟨r', hr', h⟩ := bind_eq_some_iff.mp h
    cases h
    have hoths := psciDoStateCoordination_others hr'
    cases isPowerDownState with
    | true => exact hoths.setCpu.goto
    | false => exact hoths.goto

theorem psciCpuSuspend_others
    (h : psciCpuSuspend t c info isPowerDownState pending s = some r) : Others c s r.1 := by
  obtain ⟨-, h⟩ := ite_none_right_eq_some.mp h
  by_cases hstb : (!isPowerDownState) = true ∧ psciFindTargetSuspendLvl info = 0
  · rw [if_pos hstb] at h
    cases h
    exact (Others.of_eq rfl rfl).setCpu.goto
  · rw [if_neg hstb] at h
    exact psciCpuSuspendStart_others h

/-! ### Steps of the other calls -/

/-- The CPU that takes the step. -/
def Event.cpu : Event cfg → Nat
  | .cpuOn caller _ _ => caller
  | .warmBoot cpu => cpu
  | .cpuOff cpu _ => cpu
  | .setOff cpu => cpu
  | .cpuSuspend cpu _ _ _ => cpu
  | .wakeUp cpu => cpu

/-- A CPU whose affinity state is not `ON` has not booted, or is down for good. -/
theorem TreeInv.pos_eq_off (h : TreeInv T s) (hc : c < cfg.platformCoreCount)
    (haff : (s.cpu c).affInfoState ≠ .on) : s.pos c = .off := by
  have hcpu := h.cpus c hc
  cases hp : s.pos c with
  | off => rfl
  | _ =>
    rw [hp] at hcpu
    exact absurd hcpu.1 haff

theorem CallPc.eq_none_of_isNone (h : pc.isNone = true) : pc = .none := by
  cases pc with
  | none => rfl
  | _ => simp [CallPc.isNone] at h

/-- **A step of another call** is one of a CPU that is not off and in no call afterwards, and it
leaves the other CPUs alone. If the CPU is not booted, its lock is free. -/
theorem other_step {base : State cfg} (h : TreeInv T x.base)
    (hal : x.allows e = true) (hnext : next T.toTree x.base e = some base) :
    e.cpu < cfg.platformCoreCount ∧ (x.base.cpu e.cpu).affInfoState ≠ .off ∧
      Others e.cpu x.base base ∧ x.callAfter e = update x.call e.cpu .none ∧
      (x.base.pos e.cpu = .off → x.unlocked e.cpu = true) := by
  obtain ⟨r, hr, rfl⟩ := map_eq_some_iff.mp hnext
  have hup : ∀ {c s v}, c < cfg.platformCoreCount → x.base.pos c = v → v ≠ .off →
      (x.call c).isNone = true → Others c x.base s → c < cfg.platformCoreCount ∧
        (x.base.cpu c).affInfoState ≠ .off ∧ Others c x.base s ∧
        x.call = update x.call c .none ∧
        (x.base.pos c = .off → x.unlocked c = true) := by
    rintro c s _ hc rfl hpos hnone hoths
    refine ⟨hc, fun haff => hpos (h.pos_eq_off hc (by simp [haff])), hoths, ?_,
      fun hoff => absurd hoff hpos⟩
    rw [← CallPc.eq_none_of_isNone hnone, update_eq_self]
  cases e with
  | cpuOn => simp [SysState.allows] at hal
  | warmBoot =>
    rw [step, ite_none_right_eq_some] at hr
    obtain ⟨haff, hoths⟩ := psciWarmbootEntrypoint_others hr.2
    exact ⟨hr.1.1, haff, hoths, rfl, fun _ => hal⟩
  | cpuOff c =>
    obtain ⟨⟨hc, hpos⟩, hr⟩ := ite_none_right_eq_some.mp hr
    exact hup hc hpos (by simp) hal (psciDoCpuOff_others hr)
  | setOff c =>
    obtain ⟨⟨hc, hpos⟩, hr⟩ := ite_none_right_eq_some.mp hr
    cases hr
    exact hup hc hpos (by simp) hal (Others.of_eq rfl rfl).setCpu.goto
  | cpuSuspend c =>
    obtain ⟨⟨hc, hpos⟩, hr⟩ := ite_none_right_eq_some.mp hr
    exact hup hc hpos (by simp) hal (psciCpuSuspend_others hr)
  | wakeUp c =>
    obtain ⟨hc, hr⟩ := ite_none_right_eq_some.mp hr
    generalize hpos : x.base.pos c = v at hr
    cases v with
    | retention =>
      obtain ⟨nodes, -, hr⟩ := bind_eq_some_iff.mp hr
      cases hr
      exact hup hc hpos (by simp) hal (Others.of_eq rfl rfl).psciSetPwrDomainsToRun.goto
    | standby =>
      cases hr
      exact hup hc hpos (by simp) hal (Others.of_eq rfl rfl).setCpu.goto
    | _ =>
      cases hr

/-! ### A CPU that is alone -/

/-- A CPU whose neighbours have all asked for `PLAT_MAX_OFF_STATE` decides on the state of a
domain. -/
theorem domainState_alone {v : Votes cfg} {i : Nat} (hc : c < cfg.platformCoreCount)
    (hi : i < cfg.platMaxPwrLvl)
    (hoths : ∀ c' < cfg.platformCoreCount, c' ≠ c → v (i + 1) c' = maxOffState cfg) :
    domainState T.toTree v (T.ancestor c i) = v (i + 1) c := by
  rw [domainState, T.level_ancestor c hc i hi]
  refine le_antisymm (Finset.inf_le ?_) (Finset.le_inf fun c' hc' => ?_)
  · exact (PowerTree.mem_below_ancestor hc hi).mpr ⟨hc, rfl⟩
  · obtain rfl | hne := eq_or_ne c' c
    · exact le_rfl
    · rw [hoths c' ((PowerTree.mem_below_ancestor hc hi).mp hc').1 hne]
      exact le_top

/-- **No level is demoted.** When all the other CPUs are off, `psci_do_state_coordination` makes of
the states that a CPU asks for exactly these. -/
theorem psciDoStateCoordination_alone {r : StateInfo cfg × State cfg} (h : TreeInv T s)
    (hc : c < cfg.platformCoreCount) (hoff : OthersOff s c cfg.platformCoreCount)
    (hdeep : Deep cfg info)
    (hr : psciDoStateCoordination T.toTree c (T.above c cfg.platMaxPwrLvl) info s = some r) :
    ∀ l ≤ cfg.platMaxPwrLvl, r.1 l = info l := by
  have hvot : VotesUpTo (castVotes s.req c cfg.platMaxPwrLvl info · c) cfg.platMaxPwrLvl := by
    refine ⟨fun l hl hle => ?_, fun l hlt hmax => absurd hlt (Nat.not_lt_of_le hmax)⟩
    exact (castVotes_of_le hl hle).trans_ne (hdeep l hle)
  obtain ⟨hv, hinfo, hcpu, -⟩ :=
    psciDoStateCoordination_voted hc le_rfl hr (h.staircase.cast hvot)
  intro l hl
  cases l with
  | zero =>
    have hzero := congrFun ((psciDoStateCoordination_rest hr).1.symm.trans hcpu) c
    rw [update_self, update_self] at hzero
    exact congrArg CpuData.localState hzero
  | succ i =>
    rw [hinfo i hl, hv.inside i hl, hv.req, domainState_alone hc hl fun c' hc' hne => ?_]
    · exact castVotes_of_le (Nat.le_add_left 1 i) hl
    · rw [castVotes_of_ne hne]
      exact (h.powerStatesOk.off c' hc' (hoff c' hc' hne)).1 (i + 1) (Nat.le_add_left 1 i) hl

/-- The platform's state for the system passes the assertions of `psci_system_suspend` only if it
goes down to the highest level. -/
theorem deep_of_valid (hlvl : ¬ psciFindTargetSuspendLvl info < cfg.platMaxPwrLvl)
    (hval : psciValidateSuspendReq info true = .success) : Deep cfg info := by
  obtain ⟨-, hzero, hvot⟩ := psciValidateSuspendReq_success hval
  intro l hl
  cases l with
  | zero => exact hzero
  | succ l => exact hvot.1 (l + 1) (Nat.le_add_left 1 l) (hl.trans (not_lt.mp hlvl))

/-! ### The invariant -/

theorem CallOk.eq_none (h : CallOk s c pc) (hpos : s.pos c = .off) : pc = .none := by
  cases pc with
  | none => rfl
  | _ => simp [CallOk, hpos] at h

/-- What a call relies on is kept while its CPU does not move, the CPUs that are off stay so, and
a CPU that is being turned on is not booted. -/
theorem CallOk.frame (h : CallOk s c pc) (hpos : s'.pos c = s.pos c)
    (hoff : ∀ j < cfg.platformCoreCount, (s.cpu j).affInfoState = .off →
      (s'.cpu j).affInfoState = .off)
    (htgt : ∀ target, pc.turnsOn target = true → s'.pos target = s.pos target) :
    CallOk s' c pc := by
  have hkeep : ∀ n ≤ cfg.platformCoreCount, OthersOff s c n → OthersOff s' c n :=
    fun n hn h j hj hne => hoff j (hj.trans_le hn) (h j hj hne)
  cases pc with
  | none => trivial
  | turningOn target =>
    obtain ⟨hrun, hlt, hdown⟩ := h
    exact ⟨hpos.trans hrun, hlt, (htgt target (by simp [CallPc.turnsOn])).trans hdown⟩
  | scanning =>
    obtain ⟨hrun, hle, hscan⟩ := h
    exact ⟨hpos.trans hrun, hle, hkeep _ hle hscan⟩
  | checked =>
    obtain ⟨hrun, hoths⟩ := h
    exact ⟨hpos.trans hrun, hkeep _ le_rfl hoths⟩
  | starting | down =>
    obtain ⟨hrun, hoths, hinfo⟩ := h
    exact ⟨hpos.trans hrun, hkeep _ le_rfl hoths, hinfo⟩

/-- One CPU gets to another place in its call. -/
theorem SysInv.update (h : SysInv T x) (hc : c < cfg.platformCoreCount) (htree : TreeInv T s)
    (hoths : ∀ c' < cfg.platformCoreCount, c' ≠ c → CallOk s c' (x.call c'))
    (hown : CallOk s c pc) : SysInv T ⟨s, update x.call c pc⟩ := by
  refine ⟨htree, fun c' hc' => ?_, fun c' hc' => ?_⟩
  · obtain rfl | hne := eq_or_ne c' c
    · simpa using hown
    · simpa [hne] using hoths c' hc' hne
  · have hne : c' ≠ c := by omega
    simpa [hne] using h.idle c' hc'

theorem SysInv.setCall (h : SysInv T x) (hc : c < cfg.platformCoreCount) (hown : CallOk x.base c pc)
    : SysInv T (x.setCall c pc) :=
  h.update hc h.tree (fun c' hc' _ => h.calls c' hc') hown

theorem SysInv.of_call (h : SysInv T x) (hcall : x.call c = pc) (hpc : pc ≠ .none) :
    c < cfg.platformCoreCount ∧ CallOk x.base c pc := by
  have hc : c < cfg.platformCoreCount := by
    by_contra hc
    exact hpc (hcall.symm.trans (h.idle c (not_lt.mp hc)))
  exact ⟨hc, hcall ▸ h.calls c hc⟩

theorem SysInv.other (h : SysInv T x)
    (hstep : sysStep T.toTree x (.other e) = some x') : SysInv T x' := by
  obtain ⟨hal, hstep⟩ := ite_none_right_eq_some.mp hstep
  obtain ⟨base, hnext, rfl⟩ := map_eq_some_iff.mp hstep
  obtain ⟨hc, haff, hoths, hcall, hunl⟩ := other_step h.tree hal hnext
  obtain ⟨r, hr, rfl⟩ := map_eq_some_iff.mp hnext
  rw [hcall]
  refine h.update hc (h.tree.step hr).inv (fun c' hc' hne => ?_) trivial
  refine (h.calls c' hc').frame (hoths c' hne).2 (fun j _ hj => ?_) fun target htn => ?_
  · -- A CPU that is off does not take steps.
    have hne : j ≠ e.cpu := fun heq => haff (heq ▸ hj)
    rw [(hoths j hne).1, hj]
  · -- A CPU that is being turned on waits for the lock.
    have hne : target ≠ e.cpu := by
      rintro rfl
      have hok := h.calls c' hc'
      generalize hpc : x.call c' = v at hok htn
      cases v with
      | turningOn target =>
        obtain rfl : target = e.cpu := by simpa [CallPc.turnsOn] using htn
        have hfree := hunl hok.2.2
        rw [SysState.unlocked, List.all_eq_true] at hfree
        have hfree := hfree c' (List.mem_range.mpr hc')
        rw [hpc] at hfree
        simp [CallPc.turnsOn] at hfree
      | _ =>
        simp [CallPc.turnsOn] at htn
    exact (hoths target hne).2

/-- The CPU that is turned on has not been read by a check that is still going on. -/
def TurnsOnUnread (x : SysState cfg) : SysEvent cfg → Prop
  | .cpuOn _ target _ => (x.base.cpu target).affInfoState = .off →
      ∀ c < cfg.platformCoreCount, (x.call c).hasRead target = false
  | _ => True

instance decidableTurnsOnUnread (x : SysState cfg) : ∀ e, Decidable (TurnsOnUnread x e)
  | .cpuOn _ target _ =>
    inferInstanceAs (Decidable ((x.base.cpu target).affInfoState = .off →
      ∀ c < cfg.platformCoreCount, (x.call c).hasRead target = false))
  | .other _ | .cpuOnReturn _ | .systemSuspend _ | .readState _ | .query _ _ _
  | .suspendStart _ _ => isTrue trivial

section

variable (h : SysInv T x)
include h

theorem SysInv.cpuOn {caller target : Nat} {ok : Bool}
    (hcall : caller < cfg.platformCoreCount) (htgt : target < cfg.platformCoreCount)
    (hrun : x.base.pos caller = .running) (hunr : TurnsOnUnread x (.cpuOn caller target ok)) :
    SysInv T (x.cpuOn caller target ok) := by
  rw [SysState.cpuOn]
  split_ifs with hoff
  · have htree : TreeInv T (psciCpuOnStart target true x.base) :=
      (h.tree.psciCpuOnStart htgt).inv
    have hpos : (psciCpuOnStart target true x.base).pos = x.base.pos := by
      simp [psciCpuOnStart, hoff, State.setCpu]
    have hcpu : ∀ j ≠ target, (psciCpuOnStart target true x.base).cpu j = x.base.cpu j := by
      intro j hj
      simp [psciCpuOnStart, hoff, State.setCpu, hj]
    have hon : (x.base.cpu caller).affInfoState = .on := by
      have hcpu := h.tree.cpus caller hcall
      rw [hrun] at hcpu
      exact hcpu.1
    refine h.update hcall htree (fun c hc hne => ?_) ?_
    · have hok := h.calls c hc
      -- The caller is on, so a CPU that relies on all the others being off is not there.
      have hnot : ¬ OthersOff x.base c cfg.platformCoreCount := fun hoths => by
        have := hoths caller hcall (hne.symm)
        simp [hon] at this
      generalize hpc : x.call c = v at hok
      cases v with
      | none => trivial
      | turningOn =>
        rw [CallOk, hpos]
        exact hok
      | scanning next =>
        obtain ⟨hru, hle, hscan⟩ := hok
        refine ⟨(congrFun hpos c).trans hru, hle, fun j hj hjc => ?_⟩
        have hread := hunr hoff c hc
        rw [hpc] at hread
        have hge : ¬ target < next := by simpa [CallPc.hasRead] using hread
        rw [hcpu j (by rintro rfl; exact hge hj)]
        exact hscan j hj hjc
      | checked =>
        exact absurd hok.2 hnot
      | starting | down =>
        exact absurd hok.2.1 hnot
    · rw [CallOk, hpos]
      exact ⟨hrun, htgt, h.tree.pos_eq_off htgt (by simp [hoff])⟩
  · exact h

omit h in
/-- A CPU that has not booted can be put back to `OFF`. -/
theorem TreeInv.restoreOff (h : TreeInv T s) (hc : c < cfg.platformCoreCount)
    (hpos : s.pos c = .off) :
    TreeInv T (s.setCpu c { s.cpu c with affInfoState := .off }) := by
  have hcpu := h.cpus c hc
  rw [hpos] at hcpu
  obtain ⟨-, htgt, hloc, hvot⟩ := hcpu
  refine h.voted (p := .off) (f := fun _ => localStateRun cfg) (Voted.refl rfl rfl) rfl ?_ ?_
  · rw [← hpos, update_eq_self]
    rfl
  · exact ⟨by simp, htgt, hloc, by simpa using hvot⟩

theorem SysInv.cpuOnReturn {caller target : Nat} {ok : Bool}
    (hcall : x.call caller = .turningOn target ok) :
    SysInv T (x.cpuOnReturn caller target ok) := by
  obtain ⟨hcal, hok⟩ := h.of_call hcall (by simp)
  cases ok with
  | true => exact h.setCall hcal trivial
  | false =>
    obtain ⟨-, htgt, hpos⟩ := hok
    refine h.update hcal (h.tree.restoreOff htgt hpos) (fun c hc _ => ?_) trivial
    refine (h.calls c hc).frame rfl (fun j _ hj => ?_) fun _ _ => rfl
    obtain rfl | hne := eq_or_ne j target
    · simp [State.setCpu]
    · simpa [State.setCpu, hne] using hj

theorem SysInv.readState {next : Nat} (hcall : x.call c = .scanning next)
    (hstep : x.readState c next = some x') :
    SysInv T x' := by
  obtain ⟨hc, hrun, -, hscan⟩ := h.of_call hcall (by simp)
  rw [SysState.readState] at hstep
  have hmore : next < cfg.platformCoreCount →
      (next ≠ c → (x.base.cpu next).affInfoState = .off) →
      SysInv T (x.setCall c (.scanning (next + 1))) := by
    intro hlt hnext
    refine h.setCall hc ⟨hrun, hlt, fun j hj hne => ?_⟩
    rcases Nat.lt_succ_iff_lt_or_eq.mp hj with hj | rfl
    · exact hscan j hj hne
    · exact hnext hne
  split_ifs at hstep with hlt hself hon haff
  · cases hstep
    exact hmore hlt (absurd hself)
  · cases hstep
    exact h.setCall hc trivial
  · cases hstep
    exact hmore hlt fun _ => not_not.mp haff
  · cases hstep
    exact h.setCall hc ⟨hrun, fun j hj => hscan j (hj.trans_le (not_lt.mp hlt))⟩

theorem SysInv.query {valid : Bool} (hcall : x.call c = .checked)
    (hstep : x.query c valid info = some x') :
    SysInv T x' := by
  obtain ⟨hc, hok⟩ := h.of_call hcall (by simp)
  rw [SysState.query] at hstep
  split_ifs at hstep with hval hlvl hreq
  · cases hstep
    exact h.setCall hc trivial
  · cases hstep
    exact h.setCall hc trivial
  · cases hstep
    exact h.setCall hc ⟨hok.1, hok.2, deep_of_valid hlvl hreq.1⟩

theorem SysInv.suspendStart (hcall : x.call c = .starting info)
    (hstep : x.suspendStart T.toTree c info pending = some x') : SysInv T x' := by
  obtain ⟨hc, hrun, hoths, hdeep⟩ := h.of_call hcall (by simp)
  obtain ⟨r, hr, rfl⟩ := map_eq_some_iff.mp hstep
  have htree := (h.tree.psciCpuSuspendStart hc hrun le_rfl (hdeep 0 (Nat.zero_le _))
    (fun l _ hl => hdeep l hl) hr).inv
  have hfrm := psciCpuSuspendStart_others hr
  -- The other CPUs are off, and so in no call.
  have hnone : ∀ c' < cfg.platformCoreCount, c' ≠ c → CallOk r.1 c' (x.call c') := by
    intro c' hc' hne
    have hoff := h.tree.pos_eq_off hc' (by simp [hoths c' hc' hne])
    rw [(h.calls c' hc').eq_none hoff]
    trivial
  rw [psciCpuSuspendStart, PowerTree.psciGetParentPwrDomainNodes_eq hc le_rfl,
    bind_eq_bind, bind_some] at hr
  cases pending with
  | true =>
    cases hr
    exact h.update hc htree hnone trivial
  | false =>
    obtain ⟨r', hr', hr⟩ := bind_eq_some_iff.mp hr
    cases hr
    refine h.update hc htree hnone ⟨?_, fun j hj hne => ?_, ?_⟩
    · simp [State.goto]
    · rw [(hfrm j hne).1]
      exact hoths j hj hne
    · exact psciDoStateCoordination_alone h.tree hc hoths hdeep hr'

/-- **One step.** -/
theorem SysInv.step {e : SysEvent cfg} (hunr : TurnsOnUnread x e)
    (hstep : sysStep T.toTree x e = some x') : SysInv T x' := by
  cases e with
  | other => exact h.other hstep
  | cpuOn =>
    obtain ⟨⟨hcal, htgt, hrun, -⟩, hstep⟩ := ite_none_right_eq_some.mp hstep
    cases hstep
    exact h.cpuOn hcal htgt hrun hunr
  | cpuOnReturn =>
    rw [sysStep] at hstep
    split at hstep
    next hcall =>
      cases hstep
      exact h.cpuOnReturn hcall
    next => cases hstep
  | systemSuspend =>
    obtain ⟨⟨hc, hrun, -⟩, hstep⟩ := ite_none_right_eq_some.mp hstep
    cases hstep
    exact h.setCall hc ⟨hrun, Nat.zero_le _, fun j hj => absurd hj (Nat.not_lt_zero j)⟩
  | readState =>
    rw [sysStep] at hstep
    split at hstep
    next hcall => exact h.readState hcall hstep
    next => cases hstep
  | query =>
    rw [sysStep] at hstep
    split at hstep
    next hcall => exact h.query hcall hstep
    next => cases hstep
  | suspendStart =>
    rw [sysStep] at hstep
    split at hstep
    next hcall => exact h.suspendStart hcall hstep
    next => cases hstep

end

theorem sysBoot_inv (hc : c < cfg.platformCoreCount) :
    SysInv T (sysBoot T.toTree c : SysState cfg) :=
  ⟨treeInv_boot (fun _ _ => rfl) (fun _ _ => rfl) rfl (fun _ => rfl) hc, fun _ _ => trivial,
    fun _ _ => rfl⟩

/-! ### The system is suspended -/

/-- What `PSCI_SYSTEM_SUSPEND` is to guarantee of the call of `c`, past its check. -/
def SuspendsAlone (x : SysState cfg) (c : Nat) : Prop :=
  match x.call c with
  | .starting _ => OthersOff x.base c cfg.platformCoreCount
  | .down info target => OthersOff x.base c cfg.platformCoreCount ∧
      ∀ l ≤ cfg.platMaxPwrLvl, target l = info l
  | _ => True

/-- **The system is suspended as a whole.** In every run in which no CPU is turned on that a check
in progress has read already: when `PSCI_SYSTEM_SUSPEND` goes into `psci_cpu_suspend_start`, all
the other CPUs are off, they are off until the caller wakes up, and every level is in the state
that the platform has asked for. -/
theorem system_suspends_alone (T : PowerTree cfg) (boot : Nat)
    (hboot : boot < cfg.platformCoreCount) (es : List (SysEvent cfg)) (x : SysState cfg)
    (halong : Along (sysStep T.toTree) TurnsOnUnread (sysBoot T.toTree boot) es)
    (hrun : run (sysStep T.toTree) (sysBoot T.toTree boot) es = some x) :
    ∀ c < cfg.platformCoreCount, SuspendsAlone x c := by
  have hinv : SysInv T x :=
    run_invariant_along (fun _ _ _ h => SysInv.step h)
      (sysBoot_inv hboot) halong hrun
  intro c hc
  have hok := hinv.calls c hc
  rw [SuspendsAlone]
  generalize hcall : x.call c = v at hok
  cases v with
  | starting =>
    exact hok.2.1
  | down =>
    exact hok.2
  | _ => trivial

/-- The system is suspended, and a level for which the platform has asked for `asked` is in
`got`. -/
def CallPc.downWith (l : Nat) (asked got : LocalState cfg) : CallPc cfg → Bool
  | .down info target => info l = asked ∧ target l = got
  | _ => false

theorem CallPc.eq_down_of_downWith {l : Nat} {asked got : LocalState cfg}
    (h : pc.downWith l asked got = true) :
    ∃ info target, pc = .down info target ∧ info l = asked ∧ target l = got := by
  cases pc with
  | down info target => exact ⟨info, target, rfl, by simpa [CallPc.downWith] using h⟩
  | _ => simp [CallPc.downWith] at h

/-- CPU 2 is turned on and off again, and then CPU 0 suspends the system. -/
def suspendAfterOff : List (SysEvent clustersConfig) :=
  [.cpuOn 0 2 true, .cpuOnReturn 0, .other (.warmBoot 2), .other (.cpuOff 2 false),
    .other (.setOff 2), .systemSuspend 0, .readState 0, .readState 0, .readState 0,
    .readState 0, .readState 0, .query 0 true fun _ => 2, .suspendStart 0 false]

theorem system_suspends_alone_clusters :
    ∃ (T : PowerTree clustersConfig) (x : SysState clustersConfig)
      (info target : StateInfo clustersConfig),
      run (sysStep T.toTree) (sysBoot T.toTree 0) suspendAfterOff = some x ∧
      x.call 0 = .down info target ∧ OthersOff x.base 0 4 ∧ ∀ l ≤ 2, target l = info l := by
  obtain ⟨T, -, hal, x, hx, hdown⟩ := exists_clusters (q := fun t =>
    Along (sysStep t) TurnsOnUnread (sysBoot t 0) suspendAfterOff ∧
    ∃ x, run (sysStep t) (sysBoot t 0) suspendAfterOff = some x ∧ (x.call 0).downWith 2 2 2)
    (by decide +kernel)
  obtain ⟨info, target, hcall, -⟩ := CallPc.eq_down_of_downWith hdown
  have halo := system_suspends_alone T 0 (by decide) _ x hal hx 0 (by decide)
  rw [SuspendsAlone, hcall] at halo
  exact ⟨T, x, info, target, hx, hcall, halo⟩

/-- CPU 0 has read that CPU 1 is off. Before it gets to CPU 2, this one turns CPU 1 on, and itself
off. -/
def turnedOnBehindCheck : List (SysEvent clustersConfig) :=
  [.cpuOn 0 2 true, .cpuOnReturn 0, .other (.warmBoot 2), .systemSuspend 0, .readState 0,
    .readState 0, .cpuOn 2 1 true, .cpuOnReturn 2, .other (.cpuOff 2 false), .other (.setOff 2),
    .readState 0, .readState 0, .readState 0, .query 0 true fun _ => 2]

def CallPc.isStarting : CallPc cfg → Bool
  | .starting _ => true
  | _ => false

theorem CallPc.eq_starting_of_isStarting (h : pc.isStarting = true) :
    ∃ info, pc = .starting info := by
  cases pc with
  | starting info => exact ⟨info, rfl⟩
  | _ => simp [CallPc.isStarting] at h

/-- The check passes while CPU 1 is in `ON_PENDING`. The CPU boots, and is running when the system
is suspended: its cluster and the system domain are in `RUN`, while the platform has asked for them
to be powered down. -/
theorem suspends_with_cpu_running :
    ∃ (T : PowerTree clustersConfig) (x y : SysState clustersConfig)
      (info target : StateInfo clustersConfig),
      run (sysStep T.toTree) (sysBoot T.toTree 0) turnedOnBehindCheck = some x ∧
      (x.base.cpu 1).affInfoState = .onPending ∧ ¬ SuspendsAlone x 0 ∧
      run (sysStep T.toTree) x [.other (.warmBoot 1), .suspendStart 0 false] = some y ∧
      (y.base.cpu 1).affInfoState = .on ∧ y.base.pos 1 = .running ∧
      y.call 0 = .down info target ∧ info 2 = maxOffState clustersConfig ∧
      target 2 = localStateRun clustersConfig := by
  obtain ⟨T, -, x, hx, hpend, hstt, y, hy, hon, hpos, hdown⟩ := exists_clusters (q := fun t =>
    ∃ x, run (sysStep t) (sysBoot t 0) turnedOnBehindCheck = some x ∧
      (x.base.cpu 1).affInfoState = .onPending ∧ (x.call 0).isStarting ∧
      ∃ y, run (sysStep t) x [.other (.warmBoot 1), .suspendStart 0 false] = some y ∧
        (y.base.cpu 1).affInfoState = .on ∧ y.base.pos 1 = .running ∧
        (y.call 0).downWith 2 (maxOffState clustersConfig) (localStateRun clustersConfig))
    (by decide +kernel)
  obtain ⟨info, hcall⟩ := CallPc.eq_starting_of_isStarting hstt
  obtain ⟨info', target, hcall', hask, hgot⟩ := CallPc.eq_down_of_downWith hdown
  refine ⟨T, x, y, info', target, hx, hpend, fun halo => ?_, hy, hon, hpos, hcall', hask, hgot⟩
  rw [SuspendsAlone, hcall] at halo
  have hoff := halo 1 (by decide) (by decide)
  simp [hpend] at hoff

end TrustedFirmware.Psci.Domains
