import TrustedFirmware.Psci.Topology

/-!
# The power states of the domains while the system runs

CPUs are turned on and off, suspend to power down or to retention, and wake up
(`psci_common.c`, `psci_suspend.c`, `psci_off.c`, `psci_main.c`). A CPU that goes down
requests a state for each domain above it, and `psci_do_state_coordination` settles what
each domain enters; a CPU that comes up brings them to `RUN`.

All of it happens under the locks of the domains, so one critical section is one
step, and a state of this model is one outside every critical section. The functions
that walk up from a CPU (`parent_idx = … .parent_node`) are given the domains that
the walk meets, as `psci_get_parent_pwr_domain_nodes` lists them.

The statistics (`psci_stat.c`) are kept apart: a step says which of its two functions
is called, if any, and with which arguments.
-/

namespace TrustedFirmware.Psci.Domains

variable {cfg : Config}

/-! ### Power states -/

/-- `plat_local_state_type_t`. -/
inductive LocalStateType
  | run
  | retn
  | off
  deriving Repr, DecidableEq

/-- The values of the enumeration, which the source compares. -/
def LocalStateType.val : LocalStateType → Nat
  | .run => 0
  | .retn => 1
  | .off => 2

/-- `find_local_state_type`. -/
def findLocalStateType (state : LocalState cfg) : LocalStateType :=
  if state ≠ localStateRun cfg then
    if cfg.platMaxRetState < state.val then .off else .retn
  else .run

/-- `is_local_state_run`. -/
def isLocalStateRun (state : LocalState cfg) : Bool := state = localStateRun cfg

/-- `is_local_state_retn`. -/
def isLocalStateRetn (state : LocalState cfg) : Bool :=
  0 < state.val ∧ state.val ≤ cfg.platMaxRetState

/-- `is_local_state_off`. -/
def isLocalStateOff (state : LocalState cfg) : Bool :=
  cfg.platMaxRetState < state.val ∧ state.val ≤ cfg.platMaxOffState

/-- `psci_power_state_t`: a state for each level. -/
abbrev StateInfo (cfg : Config) := Nat → LocalState cfg

/-- The loops that look, from level `i` down, for a level whose state satisfies `p`. -/
def highestLvl (p : LocalState cfg → Bool) (info : StateInfo cfg) : (i : Nat) → Nat
  | 0 => if p (info 0) then 0 else invalidPwrLvl cfg
  | i + 1 => if p (info (i + 1)) then i + 1 else highestLvl p info i

/-- `psci_find_max_off_lvl`. -/
def psciFindMaxOffLvl (info : StateInfo cfg) : Nat :=
  highestLvl isLocalStateOff info cfg.platMaxPwrLvl

/-- `psci_find_target_suspend_lvl`. -/
def psciFindTargetSuspendLvl (info : StateInfo cfg) : Nat :=
  highestLvl (fun state => !isLocalStateRun state) info cfg.platMaxPwrLvl

/-- The loop of `psci_validate_suspend_req`, from level `i` down: no level is to enter
a shallower state than the levels above it. -/
def noShallowerBelow (info : StateInfo cfg) : (i : Nat) → (deepest : LocalStateType) → Bool
  | 0, deepest => ¬ (findLocalStateType (info 0)).val < deepest.val
  | i + 1, deepest =>
    if (findLocalStateType (info (i + 1))).val < deepest.val then false
    else noShallowerBelow info i (findLocalStateType (info (i + 1)))

/-- `psci_validate_suspend_req`. -/
def psciValidateSuspendReq (info : StateInfo cfg) (isPowerDownState : Bool) : PsciRc :=
  let targetLvl := psciFindTargetSuspendLvl info
  if targetLvl = invalidPwrLvl cfg then .invalidParams
  else if !noShallowerBelow info targetLvl .run then .invalidParams
  else
    let maxOffLvl := psciFindMaxOffLvl info
    let maxRetnLvl := if targetLvl ≠ maxOffLvl then targetLvl else invalidPwrLvl cfg
    if !isPowerDownState ∧ (maxOffLvl ≠ invalidPwrLvl cfg ∨ maxRetnLvl = invalidPwrLvl cfg)
    then .invalidParams
    else .success

/-! ### State coordination -/

/-- The default `plat_get_target_pwr_state`: the shallowest of the requested states. -/
def platGetTargetPwrState (states : List (LocalState cfg)) : Option (LocalState cfg) :=
  if 0 < states.length then
    some (states.foldl (fun target temp => if temp < target then temp else target)
      (maxOffState cfg))
  else none

/-- The `ncpus` states from `cpu_start_idx` on, of those requested for level `lvl`
(`psci_get_req_local_pwr_states`). -/
def State.psciGetReqLocalPwrStates (s : State cfg) (lvl : Nat) (node : NonCpuPdNode) :
    Option (List (LocalState cfg)) :=
  if node.cpuStartIdx + node.ncpus ≤ cfg.platformCoreCount then
    some ((List.range' node.cpuStartIdx node.ncpus).map (s.req lvl))
  else none

/-- The second loop of `psci_do_state_coordination`: `k` levels from `lvl` on, above one
that is to be `RUN`. -/
def keepRunning (cpuIdx : Nat) : (k lvl : Nat) → StateInfo cfg → State cfg →
    StateInfo cfg × State cfg
  | 0, _, info, s => (info, s)
  | k + 1, lvl, info, s =>
    keepRunning cpuIdx k (lvl + 1) (Function.update info lvl (localStateRun cfg))
      (s.psciSetReqLocalPwrState lvl cpuIdx (info lvl))

/-- The first loop of `psci_do_state_coordination`, over the domains above the CPU, the
first of which is at level `lvl`, and the second where the first one breaks off. -/
def coordinate (t : Tree) (cpuIdx : Nat) : (lvl : Nat) → List Nat → StateInfo cfg →
    State cfg → Option (StateInfo cfg × State cfg)
  | _, [], info, s => some (info, s)
  | lvl, n :: nodes, info, s => do
    let s := s.psciSetReqLocalPwrState lvl cpuIdx (info lvl)
    let reqStates ← s.psciGetReqLocalPwrStates lvl (t.nonCpu n)
    let target ← platGetTargetPwrState reqStates
    let info := Function.update info lvl target
    if isLocalStateRun target then some (keepRunning cpuIdx nodes.length (lvl + 1) info s)
    else coordinate t cpuIdx (lvl + 1) nodes info s

/-- The loop of `psci_set_target_local_pwr_states`. -/
def setTargetStates (info : StateInfo cfg) : (lvl : Nat) → List Nat → State cfg → State cfg
  | _, [], s => s
  | lvl, n :: nodes, s =>
    setTargetStates info (lvl + 1) nodes (s.setNonCpuPdNodeLocalState n (info lvl))

/-- `psci_set_target_local_pwr_states`. -/
def psciSetTargetLocalPwrStates (cpuIdx : Nat) (nodes : List Nat) (info : StateInfo cfg)
    (s : State cfg) : State cfg :=
  setTargetStates info 1 nodes (s.setCpu cpuIdx { s.cpu cpuIdx with localState := info 0 })

/-- `psci_get_target_local_pwr_states`. -/
def psciGetTargetLocalPwrStates (cpuIdx : Nat) (nodes : List Nat) (s : State cfg) :
    StateInfo cfg
  | 0 => (s.cpu cpuIdx).localState
  | lvl + 1 => (nodes[lvl]?).elim (localStateRun cfg) s.localState

/-- `psci_do_state_coordination`: what the domains are to enter, and the state in which
this is recorded. -/
def psciDoStateCoordination (t : Tree) (cpuIdx : Nat) (nodes : List Nat)
    (info : StateInfo cfg) (s : State cfg) : Option (StateInfo cfg × State cfg) :=
  (coordinate t cpuIdx 1 nodes info s).map fun r =>
    (r.1, psciSetTargetLocalPwrStates cpuIdx nodes r.1 r.2)

/-! ### The calls -/

/-- The call that a step makes into `psci_stat.c`. -/
inductive StatsCall (cfg : Config)
  | none
  /-- `psci_stats_update_pwr_down` on `cpuIdx`. -/
  | down (cpuIdx endPwrlvl : Nat) (info : StateInfo cfg)
  /-- `psci_stats_update_pwr_up` on `cpuIdx`. -/
  | up (cpuIdx endPwrlvl : Nat) (info : StateInfo cfg)

/-- `psci_cpu_on_start` for `targetIdx`, under the lock of that CPU: `ok` is whether
`pwr_domain_on` succeeds. -/
def psciCpuOnStart (targetIdx : Nat) (ok : Bool) (s : State cfg) : State cfg :=
  if (s.cpu targetIdx).affInfoState = .off ∧ ok then
    s.setCpu targetIdx { s.cpu targetIdx with affInfoState := .onPending }
  else s

/-- `get_power_on_target_pwrlvl`. -/
def getPowerOnTargetPwrlvl (s : State cfg) (cpuIdx : Nat) : Nat :=
  if (s.cpu cpuIdx).targetPwrlvl = invalidPwrLvl cfg then cfg.platMaxPwrLvl
  else (s.cpu cpuIdx).targetPwrlvl

/-- `psci_cpu_suspend_finish`. -/
def psciCpuSuspendFinish (cpuIdx : Nat) (info : StateInfo cfg) (s : State cfg) :
    Option (State cfg) :=
  if (s.cpu cpuIdx).affInfoState = .on ∧ isLocalStateOff (info 0) then
    some (s.setCpu cpuIdx { s.cpu cpuIdx with targetPwrlvl := invalidPwrLvl cfg })
  else none

/-- The choice that `psci_warmboot_entrypoint` makes between the two finishers, of which
`psci_cpu_on_finish` does nothing to the state of the tree. -/
def warmbootFinish (cpuIdx : Nat) (info : StateInfo cfg) (s : State cfg) :
    Option (State cfg) :=
  if (s.cpu cpuIdx).affInfoState = .onPending then some s
  else psciCpuSuspendFinish cpuIdx info s

/-- `psci_warmboot_entrypoint`. -/
def psciWarmbootEntrypoint (t : Tree) (cpuIdx : Nat) (s : State cfg) :
    Option (State cfg × StatsCall cfg) :=
  if (s.cpu cpuIdx).affInfoState = .off then none
  else do
    let endPwrlvl := getPowerOnTargetPwrlvl s cpuIdx
    let nodes ← psciGetParentPwrDomainNodes cfg t cpuIdx endPwrlvl
    let info := psciGetTargetLocalPwrStates cpuIdx nodes s
    let s' ← warmbootFinish cpuIdx info s
    some ((psciSetPwrDomainsToRun cpuIdx nodes s').goto cpuIdx .running, .up cpuIdx endPwrlvl info)

/-- The critical section of `psci_do_cpu_off(PLAT_MAX_PWR_LVL)`; `denied` is whether
the secure payload refuses. -/
def psciDoCpuOff (t : Tree) (cpuIdx : Nat) (denied : Bool) (s : State cfg) :
    Option (State cfg × StatsCall cfg) := do
  let nodes ← psciGetParentPwrDomainNodes cfg t cpuIdx cfg.platMaxPwrLvl
  if denied then some (s, .none)
  else
    let r ← psciDoStateCoordination t cpuIdx nodes (fun _ => maxOffState cfg) s
    some (r.2.goto cpuIdx .turningOff, .down cpuIdx cfg.platMaxPwrLvl r.1)

/-- What `psci_do_cpu_off` does after it has released the locks. -/
def setAffInfoStateOff (cpuIdx : Nat) (s : State cfg) : State cfg :=
  (s.setCpu cpuIdx { s.cpu cpuIdx with affInfoState := .off }).goto cpuIdx .off

/-- The critical section of `psci_cpu_suspend_start`; with an interrupt pending the
suspend is abandoned. -/
def psciCpuSuspendStart (t : Tree) (cpuIdx endPwrlvl : Nat) (info : StateInfo cfg)
    (isPowerDownState pending : Bool) (s : State cfg) :
    Option (State cfg × StatsCall cfg) := do
  let nodes ← psciGetParentPwrDomainNodes cfg t cpuIdx endPwrlvl
  if pending then some (s, .none)
  else
    let r ← psciDoStateCoordination t cpuIdx nodes info s
    let s' :=
      if isPowerDownState then
        (r.2.setCpu cpuIdx { r.2.cpu cpuIdx with targetPwrlvl := endPwrlvl }).goto cpuIdx .suspended
      else r.2.goto cpuIdx (.retention endPwrlvl)
    some (s', .down cpuIdx endPwrlvl r.1)

/-- `psci_cpu_suspend` for a valid power state parameter, which the platform has turned
into `info`. -/
def psciCpuSuspend (t : Tree) (cpuIdx : Nat) (info : StateInfo cfg)
    (isPowerDownState pending : Bool) (s : State cfg) :
    Option (State cfg × StatsCall cfg) :=
  if psciValidateSuspendReq info isPowerDownState = .success then
    let targetPwrlvl := psciFindTargetSuspendLvl info
    if !isPowerDownState ∧ targetPwrlvl = 0 then
      some ((s.setCpu cpuIdx { s.cpu cpuIdx with localState := info 0 }).goto cpuIdx .standby,
        .none)
    else psciCpuSuspendStart t cpuIdx targetPwrlvl info isPowerDownState pending s
  else none

/-- `psci_suspend_to_standby_finisher`. -/
def psciSuspendToStandbyFinisher (t : Tree) (cpuIdx endPwrlvl : Nat) (s : State cfg) :
    Option (State cfg × StatsCall cfg) := do
  let nodes ← psciGetParentPwrDomainNodes cfg t cpuIdx endPwrlvl
  some ((psciSetPwrDomainsToRun cpuIdx nodes s).goto cpuIdx .running,
    .up cpuIdx endPwrlvl (psciGetTargetLocalPwrStates cpuIdx nodes s))

/-- The end of the fast path of `psci_cpu_suspend`. The request was for the CPU level
alone, so the state of the CPU is all there is in the `state_info`. -/
def cpuStandbyFinish (cpuIdx : Nat) (s : State cfg) : State cfg × StatsCall cfg :=
  ((s.setCpu cpuIdx { s.cpu cpuIdx with localState := localStateRun cfg }).goto cpuIdx .running,
    .up cpuIdx 0 (psciGetTargetLocalPwrStates cpuIdx [] s))

/-! ### Steps -/

/-- What can happen next. -/
inductive Event (cfg : Config)
  /-- `caller` turns `target` on. -/
  | cpuOn (caller target : Nat) (ok : Bool)
  /-- A CPU comes out of reset. -/
  | warmBoot (cpu : Nat)
  | cpuOff (cpu : Nat) (denied : Bool)
  /-- A CPU that is turning itself off writes `OFF`. -/
  | setOff (cpu : Nat)
  | cpuSuspend (cpu : Nat) (info : StateInfo cfg) (isPowerDownState pending : Bool)
  /-- A CPU wakes up from a `wfi` that has kept its context. -/
  | wakeUp (cpu : Nat)

/-- One step of the system, with the call into `psci_stat.c` that it makes. -/
def step (t : Tree) (s : State cfg) : Event cfg → Option (State cfg × StatsCall cfg)
  | .cpuOn caller target ok =>
    if caller < cfg.platformCoreCount ∧ target < cfg.platformCoreCount ∧
        s.pos caller = .running then
      some (psciCpuOnStart target ok s, .none)
    else none
  | .warmBoot cpu =>
    if cpu < cfg.platformCoreCount ∧ (s.pos cpu = .off ∨ s.pos cpu = .suspended) then
      psciWarmbootEntrypoint t cpu s
    else none
  | .cpuOff cpu denied =>
    if cpu < cfg.platformCoreCount ∧ s.pos cpu = .running then psciDoCpuOff t cpu denied s
    else none
  | .setOff cpu =>
    if cpu < cfg.platformCoreCount ∧ s.pos cpu = .turningOff then
      some (setAffInfoStateOff cpu s, .none)
    else none
  | .cpuSuspend cpu info isPowerDownState pending =>
    if cpu < cfg.platformCoreCount ∧ s.pos cpu = .running then
      psciCpuSuspend t cpu info isPowerDownState pending s
    else none
  | .wakeUp cpu =>
    if cpu < cfg.platformCoreCount then
      match s.pos cpu with
      | .retention endPwrlvl => psciSuspendToStandbyFinisher t cpu endPwrlvl s
      | .standby => some (cpuStandbyFinish cpu s)
      | _ => none
    else none

/-- One step, for its effect on the power states. -/
def next (t : Tree) (s : State cfg) (e : Event cfg) : Option (State cfg) :=
  (step t s e).map Prod.fst

end TrustedFirmware.Psci.Domains
