import Mathlib.Data.List.Basic

/-!
# Events of the software delegated exception interface

The states of an event handler and the table of their transitions (`sdei_state.c`), the
mappings of events to interrupts and the entries of the handlers (`sdei_event.c`), and
what the dispatcher keeps for each PE.

There is one mapping for an event, and one entry for each PE if the event is private.
Mappings and entries are separate data, and so are the entries and the stacks of events
that are being handled.
-/

namespace TrustedFirmware.Sdei

abbrev U64 := BitVec 64

/-! ### Handler states -/

/-- The state of an event handler. -/
structure EvState where
  running : Bool
  enabled : Bool
  registered : Bool
  deriving DecidableEq

/-- `sdei_action_t` -/
inductive Action
  | register | release | enable | disable | unregister | routing | context | complete
  | completeResume | dispatch

/-- An entry of the state table. -/
inductive Transition
  | invalid
  | nop
  | to (state : EvState)

/-- `sdei_state_table` -/
def sdeiStateTable : EvState → Action → Transition
  -- Unregistered, disabled and not running.
  | ⟨false, false, false⟩, .register => .to ⟨false, false, true⟩
  | ⟨false, false, false⟩, .release => .nop
  -- Unregistered and running.
  | ⟨true, false, false⟩, .context => .nop
  | ⟨true, false, false⟩, .complete => .to ⟨false, false, false⟩
  | ⟨true, false, false⟩, .completeResume => .to ⟨false, false, false⟩
  -- Registered.
  | ⟨false, false, true⟩, .enable => .to ⟨false, true, true⟩
  | ⟨false, false, true⟩, .disable => .nop
  | ⟨false, false, true⟩, .unregister => .to ⟨false, false, false⟩
  | ⟨false, false, true⟩, .routing => .nop
  -- Registered and running.
  | ⟨true, false, true⟩, .enable => .to ⟨true, true, true⟩
  | ⟨true, false, true⟩, .disable => .nop
  | ⟨true, false, true⟩, .unregister => .to ⟨true, false, false⟩
  | ⟨true, false, true⟩, .context => .nop
  | ⟨true, false, true⟩, .complete => .to ⟨false, false, true⟩
  | ⟨true, false, true⟩, .completeResume => .to ⟨false, false, true⟩
  -- Registered and enabled.
  | ⟨false, true, true⟩, .enable => .nop
  | ⟨false, true, true⟩, .disable => .to ⟨false, false, true⟩
  | ⟨false, true, true⟩, .unregister => .to ⟨false, false, false⟩
  | ⟨false, true, true⟩, .dispatch => .to ⟨true, true, true⟩
  -- Registered, enabled and running.
  | ⟨true, true, true⟩, .enable => .nop
  | ⟨true, true, true⟩, .disable => .to ⟨true, false, true⟩
  | ⟨true, true, true⟩, .unregister => .to ⟨true, false, false⟩
  | ⟨true, true, true⟩, .context => .nop
  | ⟨true, true, true⟩, .complete => .to ⟨false, true, true⟩
  | ⟨true, true, true⟩, .completeResume => .to ⟨false, true, true⟩
  | _, _ => .invalid

/-- `can_sdei_state_trans`: the state after the action, if it is allowed. -/
def canSdeiStateTrans (state : EvState) (act : Action) : Option EvState :=
  match sdeiStateTable state act with
  | .invalid => none
  | .nop => some state
  | .to next => some next

/-- What an action does that is allowed. -/
def EvState.Changes (st st' : EvState) : Action → Prop
  | .register => st = ⟨false, false, false⟩ ∧ st' = ⟨false, false, true⟩
  | .release => st = ⟨false, false, false⟩ ∧ st' = st
  | .enable => st.registered = true ∧ st' = { st with enabled := true }
  | .disable => st.registered = true ∧ st' = { st with enabled := false }
  | .unregister => st.registered = true ∧ st' = ⟨st.running, false, false⟩
  | .routing => st = ⟨false, false, true⟩ ∧ st' = st
  | .dispatch => st = ⟨false, true, true⟩ ∧ st' = ⟨true, true, true⟩
  | .context => st.running = true ∧ st' = st
  | .complete | .completeResume => st.running = true ∧ st' = { st with running := false }

theorem changes {st st' : EvState} {act : Action} (h : canSdeiStateTrans st act = some st') :
    st.Changes st' act := by
  obtain ⟨r, e, g⟩ := st
  cases act <;> cases r <;> cases e <;> cases g <;>
    simp_all [canSdeiStateTrans, sdeiStateTable, EvState.Changes]

/-! ### Mappings and entries -/

/-- `SDEI_EVENT_0` -/
def sdeiEvent0 : Int := 0

/-- `SDEI_DYN_IRQ`, the interrupt of a dynamic mapping that is not bound. -/
def sdeiDynIrq : Nat := 0

/-- `SDEI_REGF_RM_ANY` -/
def sdeiRegfRmAny : U64 := 0

/-- `SDEI_REGF_RM_PE` -/
def sdeiRegfRmPe : U64 := 1

/-- `MPIDR_AFFINITY_MASK` -/
def mpidrAffinityMask : U64 := 0xff00ffffff

/-- `SDEI_MAPF_DYNAMIC` and the other flags of a mapping. -/
structure MapFlags where
  dynamic : Bool
  bound : Bool
  signalable : Bool
  priv : Bool
  critical : Bool
  explicit : Bool
  deriving DecidableEq

/-- `sdei_ev_map_t`, apart from the lock: what is done under the lock is one step. -/
structure EvMap where
  evNum : Int
  intr : Nat
  flags : MapFlags
  regCount : Int
  deriving DecidableEq

/-- `sdei_class_t` -/
inductive SdeiClass
  | normal
  | critical
  deriving DecidableEq

/-- `is_event_private` -/
def isEventPrivate (m : EvMap) : Bool := m.flags.priv

/-- `is_event_shared` -/
def isEventShared (m : EvMap) : Bool := !isEventPrivate m

/-- `is_event_critical` -/
def isEventCritical (m : EvMap) : Bool := m.flags.critical

/-- `is_event_normal` -/
def isEventNormal (m : EvMap) : Bool := !isEventCritical m

/-- `is_event_signalable` -/
def isEventSignalable (m : EvMap) : Bool := m.flags.signalable

/-- `is_map_dynamic` -/
def isMapDynamic (m : EvMap) : Bool := m.flags.dynamic

/-- `is_map_bound` -/
def isMapBound (m : EvMap) : Bool := m.flags.bound

/-- `is_map_explicit` -/
def isMapExplicit (m : EvMap) : Bool := m.flags.explicit

/-- `set_map_bound` and `clr_map_bound` -/
def setMapBound (m : EvMap) (bound : Bool) : EvMap :=
  { m with flags := { m.flags with bound := bound } }

/-- `map_to_class` -/
def mapToClass (m : EvMap) : SdeiClass := if isEventCritical m then .critical else .normal

/-- `sdei_entry_t` -/
structure SdeiEntry where
  ep : U64
  arg : U64
  affinity : U64
  regFlags : U64
  state : EvState
  deriving DecidableEq

/-- An entry that was never used. -/
def SdeiEntry.zero : SdeiEntry := ⟨0, 0, 0, 0, ⟨false, false, false⟩⟩

/-- `clear_event_entries` -/
def clearEventEntries (se : SdeiEntry) : SdeiEntry :=
  { se with ep := 0, arg := 0, affinity := 0, regFlags := 0 }

/-- A pointer to a mapping: the array that it is in, and its place there. -/
structure MapRef where
  shared : Bool
  idx : Nat
  deriving DecidableEq

/-! ### The interrupt controller -/

/-- `plat_ic_is_sgi` -/
def platIcIsSgi (intr : Nat) : Bool := intr < 16

/-- `plat_ic_is_ppi` -/
def platIcIsPpi (intr : Nat) : Bool := 16 ≤ intr ∧ intr < 32

/-- `plat_ic_is_spi` -/
def platIcIsSpi (intr : Nat) : Bool := 32 ≤ intr ∧ intr ≤ 1019

/-- The types of interrupts. -/
inductive IntrType
  | el3
  | secureEl1
  | ns
  deriving DecidableEq

/-- Where a shared interrupt is routed to. -/
inductive Routing
  | any
  | pe (affinity : U64)
  deriving DecidableEq

/-- The registers for an interrupt are those of the distributor if it is shared, and
otherwise those of the PE. -/
def bank {n : Nat} (pe : Fin n) (intr : Nat) : Option (Fin n) :=
  if platIcIsSpi intr then none else some pe

/-- The interrupt controller, as far as it is read back: which interrupts are enabled,
their types, where shared interrupts are routed to, and for each PE the priorities of
the events that are being handled on it, the highest one first. -/
structure Gic (n : Nat) where
  enabled : Option (Fin n) → Nat → Bool
  intrType : Option (Fin n) → Nat → IntrType
  routing : Nat → Routing
  active : Fin n → List SdeiClass

namespace Gic

variable {n : Nat}

/-- `plat_ic_enable_interrupt` and `plat_ic_disable_interrupt` -/
def setEnabled (g : Gic n) (pe : Fin n) (intr : Nat) (on : Bool) : Gic n :=
  { g with enabled := fun b i => if b = bank pe intr ∧ i = intr then on else g.enabled b i }

/-- `plat_ic_set_interrupt_type` -/
def setType (g : Gic n) (pe : Fin n) (intr : Nat) (type : IntrType) : Gic n :=
  { g with intrType := fun b i => if b = bank pe intr ∧ i = intr then type else g.intrType b i }

/-- `plat_ic_set_spi_routing` -/
def setSpiRouting (g : Gic n) (intr : Nat) (flags mpidr : U64) : Gic n :=
  let target := if flags = sdeiRegfRmAny then .any else .pe (mpidr &&& mpidrAffinityMask)
  { g with routing := Function.update g.routing intr target }

end Gic

/-! ### The dispatcher -/

/-- The registers of the normal world that a dispatch saves. -/
structure NsContext where
  x : Fin 18 → U64
  elrEl3 : U64
  spsrEl3 : U64

/-- What a completed dispatch returns to: `sdei_intr_handler` or `sdei_dispatch_event`. -/
inductive Origin
  | interrupt
  | explicit
  deriving DecidableEq

/-- `sdei_dispatch_context_t` -/
structure DispatchContext where
  map : MapRef
  saved : NsContext
  origin : Origin

/-- The place of a PE in `sdei_interrupt_bind`, with the interrupt and the place in the
array of mappings. -/
inductive BindPc
  | idle
  /-- Reading a mapping to see whether it is that of the interrupt. -/
  | lookup (intr i : Nat)
  /-- A mapping has the interrupt. -/
  | found (intr i : Nat)
  /-- Reading a mapping to see whether it is free. -/
  | free (intr i : Nat)
  /-- About to take the lock of a free mapping. -/
  | claim (intr i : Nat)
  deriving DecidableEq

/-- `sdei_cpu_state_t`, the top of the stack first, with the context of the normal world
and the exception registers of the client, and where the PE is. -/
structure CpuState where
  stack : List DispatchContext
  peMasked : Bool
  pendingEnables : Bool
  ns : NsContext
  clientElr : U64
  clientSpsr : U64
  online : Bool
  binding : BindPc

/-- The state of the dispatcher: `sdei_global_mappings` (the shared ones at `true`), the
tables of entries (the shared ones at `none`), the PEs and the interrupt controller. -/
structure Dispatcher (n : Nat) where
  maps : Bool → List EvMap
  entries : Option (Fin n) × Nat → SdeiEntry
  cpus : Fin n → CpuState
  gic : Gic n

/-- What the platform provides. -/
structure Platform (n : Nat) where
  /-- `ENABLE_ASSERTIONS` -/
  assertions : Bool
  primary : Fin n
  /-- `read_mpidr_el1() & MPIDR_AFFINITY_MASK`, by which PEs can be told apart. -/
  mpidr : Fin n → U64
  mpidr_injective : Function.Injective mpidr
  /-- `plat_core_pos_by_mpidr` -/
  platCorePosByMpidr : U64 → Option (Fin n)
  /-- The state that event handlers start in. -/
  handlerSpsr : U64

/-- Where the entry of a mapping is for a PE, as `get_event_entry` finds it. -/
def entryKey {n : Nat} (pe : Fin n) (r : MapRef) (m : EvMap) : Option (Fin n) × Nat :=
  (if isEventPrivate m then some pe else none, r.idx)

namespace Dispatcher

variable {n : Nat}

def map? (s : Dispatcher n) (r : MapRef) : Option EvMap := (s.maps r.shared)[r.idx]?

def setMap (s : Dispatcher n) (r : MapRef) (m : EvMap) : Dispatcher n :=
  { s with maps := Function.update s.maps r.shared ((s.maps r.shared).set r.idx m) }

def setEntry (s : Dispatcher n) (k : Option (Fin n) × Nat) (se : SdeiEntry) : Dispatcher n :=
  { s with entries := Function.update s.entries k se }

def setCpu (s : Dispatcher n) (pe : Fin n) (c : CpuState) : Dispatcher n :=
  { s with cpus := Function.update s.cpus pe c }

/-- The first mapping of an array that has a property. -/
def findMap (s : Dispatcher n) (shared : Bool) (p : EvMap → Bool) : Option (MapRef × EvMap) :=
  ((s.maps shared).findIdx? p).bind fun i => ((s.maps shared)[i]?).map fun m => (⟨shared, i⟩, m)

/-- `find_event_map` -/
def findEventMap (s : Dispatcher n) (evNum : Int) : Option (MapRef × EvMap) :=
  (s.findMap false fun m => m.evNum = evNum).or (s.findMap true fun m => m.evNum = evNum)

/-- `find_event_map_by_intr` -/
def findEventMapByIntr (s : Dispatcher n) (intr : Nat) (shared : Bool) : Option (MapRef × EvMap) :=
  s.findMap shared fun m => m.intr = intr

end Dispatcher

end TrustedFirmware.Sdei
