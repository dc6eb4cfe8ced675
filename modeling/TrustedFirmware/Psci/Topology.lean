import Mathlib.Algebra.Order.Ring.Nat
import Mathlib.Order.Fin.Basic
import TrustedFirmware.Psci.Types

/-!
# The power-domain tree and how `psci_setup` builds it (`psci_setup.c`)

The platform describes the tree breadth first, as an array of `unsigned char`: the
number of root domains, then for each domain in turn the number of its children, down to
the domains whose children are CPUs.

The CPUs are the entries of `psci_cpu_pd_nodes[]`, the domains above them those of
`psci_non_cpu_pd_nodes[]`. What `psci_setup` fixes once and for all (the parents,
the levels, the range of CPUs below each domain) is a `Tree`; what changes while
the system runs (the power states, and what each CPU has requested) is a `State`.

A failed assertion and an access outside an array are `none`. Before `psci_setup`
the arrays hold the zeros that the C runtime leaves in `.bss`.
-/

namespace TrustedFirmware.Psci.Domains

open Function (update)

/-! ### What the platform fixes at build time -/

/-- The constants of `platform_def.h` that the power-domain tree depends on. -/
structure Config where
  /-- `PLAT_MAX_PWR_LVL`, the level of the root domains; CPUs are at level 0. -/
  platMaxPwrLvl : Nat
  /-- `PLATFORM_CORE_COUNT`. -/
  platformCoreCount : Nat
  /-- `PSCI_NUM_NON_CPU_PWR_DOMAINS`, the size of `psci_non_cpu_pd_nodes[]`. -/
  psciNumNonCpuPwrDomains : Nat
  /-- `PLAT_MAX_RET_STATE`, the deepest retention state. -/
  platMaxRetState : Nat
  /-- `PLAT_MAX_OFF_STATE`, the deepest power-down state. -/
  platMaxOffState : Nat
  /-- The `CASSERT` at the head of `psci_common.c`. -/
  platMaxPwrLvl_le : platMaxPwrLvl ≤ 3
  platMaxRetState_lt : platMaxRetState < platMaxOffState
  /-- The array is indexed with an `int`. -/
  psciNumNonCpuPwrDomains_lt : psciNumNonCpuPwrDomains < 2 ^ 31

/-- `plat_local_state_t`: the power states of a domain, from 0, which is `RUN`, to
`PLAT_MAX_OFF_STATE`. The porting guide has the platform allocate its states in
this range. -/
abbrev LocalState (cfg : Config) := Fin (cfg.platMaxOffState + 1)

variable (cfg : Config)

instance (priority := 1100) neZero_localState : NeZero (cfg.platMaxOffState + 1) :=
  ⟨Nat.succ_ne_zero cfg.platMaxOffState⟩

/-- `PSCI_LOCAL_STATE_RUN`. -/
def localStateRun : LocalState cfg := 0

/-- `PLAT_MAX_OFF_STATE`. -/
def maxOffState : LocalState cfg := Fin.last cfg.platMaxOffState

/-- `PSCI_INVALID_PWR_LVL`. -/
def invalidPwrLvl : Nat := cfg.platMaxPwrLvl + 1

/-! ### The arrays -/

/-- `non_cpu_pd_node_t`, without the `local_state`, which is in the `State`. -/
structure NonCpuPdNode where
  cpuStartIdx : Nat
  ncpus : Nat
  parentNode : Nat
  level : Nat
  lockIndex : Nat
  deriving Repr, DecidableEq

/-- The part of `psci_non_cpu_pd_nodes[]` and `psci_cpu_pd_nodes[]` that only
`psci_setup` writes. -/
structure Tree where
  nonCpu : Nat → NonCpuPdNode
  /-- `parent_node` of each `psci_cpu_pd_nodes[]`. -/
  cpuParent : Nat → Nat

/-- A write to an entry of `psci_non_cpu_pd_nodes[]`. -/
def Tree.setNode (t : Tree) (n : Nat) (node : NonCpuPdNode) : Tree :=
  { t with nonCpu := update t.nonCpu n node }

/-- `psci_cpu_data_t`. -/
structure CpuData where
  affInfoState : AffInfoState
  targetPwrlvl : Nat
  localState : LocalState cfg

/-- Where a CPU is, outside the critical sections. -/
inductive Position
  /-- Not booted yet, or in the final `wfi` of `psci_do_cpu_off`. -/
  | off
  /-- In the normal world, or in a call that holds no lock of the tree. -/
  | running
  /-- In `psci_do_cpu_off`, past the critical section, before it writes `OFF`. -/
  | turningOff
  /-- In the final `wfi` of a suspend to power down. -/
  | suspended
  /-- In the `wfi` of a suspend that keeps the context, up to `endPwrlvl`. -/
  | retention (endPwrlvl : Nat)
  /-- In `cpu_standby`, on the fast path of `psci_cpu_suspend`. -/
  | standby
  deriving Repr, DecidableEq

/-- The power states, the requests and where every CPU is. -/
structure State where
  /-- `local_state` of each `psci_non_cpu_pd_nodes[]`. -/
  localState : Nat → LocalState cfg
  cpu : Nat → CpuData cfg
  /-- `psci_req_local_pwr_states[lvl - 1][cpu]`, as a function of `lvl` and `cpu`. -/
  req : Nat → Nat → LocalState cfg
  pos : Nat → Position

variable {cfg} in
/-- A write to the `psci_svc_cpu_data` of a CPU. -/
def State.setCpu (s : State cfg) (c : Nat) (d : CpuData cfg) : State cfg :=
  { s with cpu := update s.cpu c d }

variable {cfg} in
/-- A write to the `local_state` of a domain (`set_non_cpu_pd_node_local_state`). -/
def State.setNonCpuPdNodeLocalState (s : State cfg) (n : Nat) (state : LocalState cfg) :
    State cfg :=
  { s with localState := update s.localState n state }

variable {cfg} in
/-- A CPU gets to another position. -/
def State.goto (s : State cfg) (c : Nat) (p : Position) : State cfg :=
  { s with pos := update s.pos c p }

/-- The state in which `psci_setup` runs. -/
structure Setup where
  tree : Tree
  state : State cfg

/-- The arrays before `psci_setup`, of which `AFF_STATE_ON` and `RUN` are the zeros. -/
def Setup.zero : Setup cfg where
  tree := ⟨fun _ => ⟨0, 0, 0, 0, 0⟩, fun _ => 0⟩
  state := ⟨fun _ => localStateRun cfg, fun _ => ⟨.on, 0, localStateRun cfg⟩,
    fun _ _ => localStateRun cfg, fun _ => .off⟩

variable {cfg}

/-! ### Populating the tree -/

/-- `psci_init_pwr_domain_node`. -/
def psciInitPwrDomainNode (u : Setup cfg) (nodeIdx parentIdx level : Nat) :
    Option (Setup cfg) :=
  if 0 < level then
    if nodeIdx < cfg.psciNumNonCpuPwrDomains then
      some { tree := u.tree.setNode nodeIdx { u.tree.nonCpu nodeIdx with
               level := level, lockIndex := nodeIdx, parentNode := parentIdx }
             state := u.state.setNonCpuPdNodeLocalState nodeIdx (maxOffState cfg) }
    else none
  else
    if nodeIdx < cfg.platformCoreCount then
      some { tree := { u.tree with
               cpuParent := update u.tree.cpuParent nodeIdx parentIdx }
             state := u.state.setCpu nodeIdx ⟨.off, invalidPwrLvl cfg, maxOffState cfg⟩ }
    else none

/-- The loop over `j`, from `j` on for `numChildren` rounds. The index is cast to
`unsigned char`; the parent of a root is `-1` as an `unsigned int`. -/
def initChildren (parentNodeIndex level : Nat) : (numChildren j : Nat) → Setup cfg →
    Option (Setup cfg)
  | 0, _, u => some u
  | numChildren + 1, j, u =>
    (psciInitPwrDomainNode u (j % 256) ((parentNodeIndex + (2 ^ 32 - 1)) % 2 ^ 32) level).bind
      (initChildren parentNodeIndex level numChildren (j + 1))

/-- The variables of `populate_power_domain_tree`. -/
structure Populate (cfg : Config) where
  setup : Setup cfg
  j : Nat
  nodeIndex : Nat
  parentNodeIndex : Nat
  numNodesAtNextLvl : Nat

/-- One round of the loop over the entries of a level. -/
def populateEntry (topology : List UInt8) (level : Nat) (w : Populate cfg) :
    Option (Populate cfg) :=
  if w.parentNodeIndex ≤ cfg.psciNumNonCpuPwrDomains then do
    let numChildren := (← topology[w.parentNodeIndex]?).toNat
    let u ← initChildren w.parentNodeIndex level numChildren w.nodeIndex w.setup
    some { setup := u
           j := w.nodeIndex + numChildren
           nodeIndex := w.nodeIndex + numChildren
           parentNodeIndex := w.parentNodeIndex + 1
           numNodesAtNextLvl := w.numNodesAtNextLvl + numChildren }
  else none

/-- The loop over the entries of a level. -/
def populateEntries (topology : List UInt8) (level : Nat) : (numNodesAtLvl : Nat) →
    Populate cfg → Option (Populate cfg)
  | 0, w => some w
  | n + 1, w => (populateEntry topology level w).bind (populateEntries topology level n)

/-- The loop over the levels, from `level` down to that of the CPUs. The index
starts again at 0 for the array of the CPUs. -/
def populateLevels (topology : List UInt8) : (level numNodesAtLvl : Nat) →
    Populate cfg → Option (Populate cfg)
  | 0, n, w => populateEntries topology 0 n { w with numNodesAtNextLvl := 0 }
  | level + 1, n, w => do
    let w ← populateEntries topology (level + 1) n { w with numNodesAtNextLvl := 0 }
    populateLevels topology level w.numNodesAtNextLvl
      { w with nodeIndex := if level = 0 then 0 else w.nodeIndex }

/-- `populate_power_domain_tree`. -/
def populatePowerDomainTree (topology : List UInt8) (u : Setup cfg) : Option (Setup cfg) := do
  let w ← populateLevels topology cfg.platMaxPwrLvl 1 ⟨u, 0, 0, 0, 0⟩
  if w.j = cfg.platformCoreCount then some w.setup else none

/-! ### The range of CPUs below each domain -/

variable (cfg) in
/-- The walk of `psci_get_parent_pwr_domain_nodes`, from `parentNode` up. -/
def parentNodes (t : Tree) : (levels parentNode : Nat) → Option (List Nat)
  | 0, _ => some []
  | k + 1, p =>
    if p < cfg.psciNumNonCpuPwrDomains then
      (parentNodes t k (t.nonCpu p).parentNode).map (p :: ·)
    else none

variable (cfg) in
/-- `psci_get_parent_pwr_domain_nodes`: the domains above `cpuIdx`, from level 1 to
`endLvl`. -/
def psciGetParentPwrDomainNodes (t : Tree) (cpuIdx endLvl : Nat) : Option (List Nat) :=
  parentNodes cfg t endLvl (t.cpuParent cpuIdx)

/-- The body of the inner loop of `psci_update_pwrlvl_limits`: level `j + 1`, at which
`n` is the domain above `cpuIdx`. -/
def updateLimit (cpuIdx n j : Nat) (w : Tree × (Nat → Nat)) : Tree × (Nat → Nat) :=
  let w :=
    if n ≠ w.2 j then
      (w.1.setNode n { w.1.nonCpu n with cpuStartIdx := cpuIdx }, update w.2 j n)
    else w
  let n := w.2 j
  (w.1.setNode n { w.1.nonCpu n with ncpus := (w.1.nonCpu n).ncpus + 1 }, w.2)

/-- The inner loop, over `j` downwards. -/
def updateLimits (cpuIdx : Nat) (tempIndex : List Nat) : (j : Nat) → Tree × (Nat → Nat) →
    Tree × (Nat → Nat)
  | 0, w => w
  | j + 1, w => updateLimits cpuIdx tempIndex j (updateLimit cpuIdx (tempIndex.getD j 0) j w)

variable (cfg) in
/-- The outer loop, over the CPUs from `cpuIdx` on for `n` rounds. -/
def limitsFrom : (n cpuIdx : Nat) → Tree × (Nat → Nat) → Option (Tree × (Nat → Nat))
  | 0, _, w => some w
  | n + 1, cpuIdx, w => do
    let tempIndex ← psciGetParentPwrDomainNodes cfg w.1 cpuIdx cfg.platMaxPwrLvl
    limitsFrom n (cpuIdx + 1) (updateLimits cpuIdx tempIndex cfg.platMaxPwrLvl w)

variable (cfg) in
/-- `psci_update_pwrlvl_limits`. -/
def psciUpdatePwrlvlLimits (t : Tree) : Option Tree :=
  (limitsFrom cfg cfg.platformCoreCount 0 (t, fun _ => 0)).map Prod.fst

/-! ### Bringing a CPU and the domains above it to `RUN` -/

/-- `psci_set_req_local_pwr_state`. -/
def State.psciSetReqLocalPwrState (s : State cfg) (pwrlvl cpuIdx : Nat)
    (state : LocalState cfg) : State cfg :=
  { s with req := update s.req pwrlvl (update (s.req pwrlvl) cpuIdx state) }

/-- The loop of `psci_set_pwr_domains_to_run` over the domains above a CPU, the first
of which is at level `lvl`. -/
def setDomainsToRun (cpuIdx : Nat) : (lvl : Nat) → List Nat → State cfg → State cfg
  | _, [], s => s
  | lvl, n :: nodes, s => setDomainsToRun cpuIdx (lvl + 1) nodes
      ((s.setNonCpuPdNodeLocalState n (localStateRun cfg)).psciSetReqLocalPwrState lvl cpuIdx
        (localStateRun cfg))

/-- `psci_set_pwr_domains_to_run` on `cpuIdx`, where `nodes` are the domains above it
up to the `end_pwrlvl`. -/
def psciSetPwrDomainsToRun (cpuIdx : Nat) (nodes : List Nat) (s : State cfg) : State cfg :=
  let s := setDomainsToRun cpuIdx 1 nodes s
  s.setCpu cpuIdx { s.cpu cpuIdx with affInfoState := .on, localState := localStateRun cfg }

/-- `psci_init_req_local_pwr_states`. -/
def psciInitReqLocalPwrStates (s : State cfg) : State cfg :=
  { s with req := fun _ _ => maxOffState cfg }

variable (cfg) in
/-- `psci_setup` on the CPU `plat_my_core_pos()`, as far as the tree goes. -/
def psciSetup (topology : List UInt8) (platMyCorePos : Nat) : Option (Setup cfg) := do
  let u ← populatePowerDomainTree topology (Setup.zero cfg)
  let t ← psciUpdatePwrlvlLimits cfg u.tree
  if platMyCorePos < cfg.platformCoreCount then
    let nodes ← psciGetParentPwrDomainNodes cfg t platMyCorePos cfg.platMaxPwrLvl
    let s := psciSetPwrDomainsToRun platMyCorePos nodes (psciInitReqLocalPwrStates u.state)
    some ⟨t, s.goto platMyCorePos .running⟩
  else none

end TrustedFirmware.Psci.Domains
