import TrustedFirmware.Sdei.Events

/-!
# The calls of the dispatcher (`sdei_main.c`, `sdei_intr_mgmt.c`)

What the normal world asks for by SMC, the handling of interrupts and explicit
dispatches, what happens when a PE is turned on, and the initialisation of the mappings.
A call returns the new state and its return value; `none` stands for a panic or an
assertion that fails.

`SDEI_INTERRUPT_BIND` searches the mappings without a lock, so it takes a step for each
mapping that it reads. The other calls do their work under one lock, or on data that no
other PE changes.
-/

namespace TrustedFirmware.Sdei

/-- `SDEI_EINVAL` -/
def sdeiEinval : Int := -2

/-- `SDEI_EDENY` -/
def sdeiEdeny : Int := -3

/-- `SDEI_EPEND` -/
def sdeiEpend : Int := -5

/-- `SDEI_ENOMEM` -/
def sdeiEnomem : Int := -10

/-- `MAX_EVENT_NESTING` -/
def maxEventNesting : Nat := 2

variable {n : Nat} (p : Platform n) (s : Dispatcher n) (pe : Fin n)

/-! ### Masking -/

/-- `sdei_pe_mask` -/
def sdeiPeMask : Dispatcher n × Int :=
  let c := s.cpus pe
  (s.setCpu pe { c with peMasked := true }, if c.peMasked then 0 else 1)

/-- The interrupts of the private mappings of a PE that are bound and enabled. -/
def enablePrivate (g : Gic n) : List EvMap → Nat → Gic n
  | [], _ => g
  | m :: ms, i =>
    let se := s.entries (entryKey pe ⟨false, i⟩ m)
    let g := if isMapBound m ∧ se.state.enabled then g.setEnabled pe m.intr true else g
    enablePrivate g ms (i + 1)

/-- Those of the shared mappings that target the PE. -/
def enableShared (g : Gic n) : List EvMap → Nat → Gic n
  | [], _ => g
  | m :: ms, i =>
    let se := s.entries (entryKey pe ⟨true, i⟩ m)
    let g :=
      if isMapBound m ∧ se.state.enabled ∧ se.regFlags = sdeiRegfRmPe ∧ se.affinity = p.mpidr pe
      then g.setEnabled pe m.intr true else g
    enableShared g ms (i + 1)

/-- `sdei_pe_unmask` -/
def sdeiPeUnmask : Dispatcher n :=
  let c := s.cpus pe
  let g :=
    if c.pendingEnables then
      enableShared p s pe (enablePrivate s pe s.gic (s.maps false) 0) (s.maps true) 0
    else s.gic
  { s.setCpu pe { c with pendingEnables := false, peMasked := false } with gic := g }

/-! ### Registration -/

/-- `validate_flags` -/
def validateFlags (flags mpidr : U64) : Int :=
  if flags = sdeiRegfRmPe then
    if (p.platCorePosByMpidr mpidr).isSome then 0 else sdeiEinval
  else if flags = sdeiRegfRmAny then 0
  else sdeiEinval

/-- `sdei_event_routing_set` -/
def sdeiEventRoutingSet (evNum : Int) (flags mpidr : U64) : Option (Dispatcher n × Int) :=
  let ret := validateFlags p flags mpidr
  if ret ≠ 0 then some (s, ret)
  else
    match s.findEventMap evNum with
    | none => some (s, sdeiEinval)
    | some (r, m) =>
      if isEventPrivate m then some (s, sdeiEinval)
      else
        let k := entryKey pe r m
        if ¬ isMapBound m then some (s, sdeiEinval)
        else
          match canSdeiStateTrans (s.entries k).state .routing with
          | none => some (s, sdeiEdeny)
          | some st =>
            -- The affinity of the entry is not updated.
            some ({ s.setEntry k { s.entries k with regFlags := flags, state := st } with
              gic := s.gic.setSpiRouting m.intr flags mpidr }, 0)

/-- What registering an event does to the interrupt that it is bound to. -/
def registerInterrupt (g : Gic n) (m : EvMap) (flags mpidr : U64) : Gic n :=
  let g := (g.setEnabled pe m.intr false).setType pe m.intr .el3
  if isEventShared m then g.setSpiRouting m.intr flags mpidr else g

/-- `sdei_event_register`, with the result of `plat_sdei_validate_entry_point` and whether
the interrupt is active. -/
def sdeiEventRegister (evNum : Int) (ep arg flags mpidr : U64) (epValid active : Bool) :
    Option (Dispatcher n × Int) :=
  if ep = 0 ∨ ¬ epValid then some (s, sdeiEinval)
  else
    let ret := validateFlags p flags mpidr
    if ret ≠ 0 then some (s, ret)
    else
      match s.findEventMap evNum with
      | none => some (s, sdeiEinval)
      | some (r, m) =>
        -- Private events always target the PE.
        let flags := if isEventPrivate m then sdeiRegfRmPe else flags
        let k := entryKey pe r m
        match canSdeiStateTrans (s.entries k).state .register with
        | none => some (s, sdeiEdeny)
        | some st =>
          if isMapDynamic m ∧ ¬ isMapBound m then some (s, sdeiEdeny)
          else if p.assertions ∧
              ¬ (if isEventPrivate m then 0 ≤ m.regCount else m.regCount = 0) then none
          else if isMapBound m ∧ (active ∨ s.gic.intrType (bank pe m.intr) m.intr ≠ .ns) then
            some (s, sdeiEdeny)
          else
            let g := if isMapBound m then registerInterrupt pe s.gic m flags mpidr else s.gic
            let se := ⟨ep, arg, mpidr &&& mpidrAffinityMask, flags, st⟩
            some ({ (s.setEntry k se).setMap r { m with regCount := m.regCount + 1 } with
              gic := g }, 0)

/-- `sdei_event_enable` (with `true`) and `sdei_event_disable`: the interrupt follows the
event where its state changes. -/
def sdeiEventSet (act : Action) (on : Bool) (evNum : Int) : Option (Dispatcher n × Int) :=
  match s.findEventMap evNum with
  | none => some (s, sdeiEinval)
  | some (r, m) =>
    let k := entryKey pe r m
    match canSdeiStateTrans (s.entries k).state act with
    | none => some (s, sdeiEdeny)
    | some st =>
      let before := (s.entries k).state.enabled
      let g :=
        if isMapBound m ∧ before ≠ on ∧ st.enabled = on then s.gic.setEnabled pe m.intr on
        else s.gic
      some ({ s.setEntry k { s.entries k with state := st } with gic := g }, 0)

/-- `sdei_event_enable` -/
def sdeiEventEnable : Int → Option (Dispatcher n × Int) := sdeiEventSet s pe .enable true

/-- `sdei_event_disable` -/
def sdeiEventDisable : Int → Option (Dispatcher n × Int) := sdeiEventSet s pe .disable false

/-- `sdei_event_unregister` -/
def sdeiEventUnregister (evNum : Int) : Option (Dispatcher n × Int) :=
  match s.findEventMap evNum with
  | none => some (s, sdeiEinval)
  | some (r, m) =>
    let k := entryKey pe r m
    match canSdeiStateTrans (s.entries k).state .unregister with
    | none => some (s, if (s.entries k).state.running then sdeiEpend else sdeiEdeny)
    | some st =>
      let count := m.regCount - 1
      if p.assertions ∧ ¬ (if isEventPrivate m then 0 ≤ count else count = 0) then none
      else if p.assertions ∧ isMapBound m ∧
          s.gic.intrType (bank pe m.intr) m.intr ≠ .el3 then none
      else
        let g :=
          if isMapBound m then (s.gic.setEnabled pe m.intr false).setType pe m.intr .ns
          else s.gic
        let se := clearEventEntries { s.entries k with state := st }
        some ({ (s.setEntry k se).setMap r { m with regCount := count } with gic := g },
          if st.running then sdeiEpend else 0)

/-! ### Binding -/

/-- The start of `sdei_interrupt_bind`. -/
def sdeiInterruptBind (intr : Nat) : Dispatcher n × Option Int :=
  if platIcIsSgi intr then (s, some sdeiEinval)
  else (s.setCpu pe { s.cpus pe with binding := .lookup intr 0 }, none)

/-- The PE goes on in `sdei_interrupt_bind`, or leaves it with a return value. -/
def bindTo (pc : BindPc) : Dispatcher n := s.setCpu pe { s.cpus pe with binding := pc }

/-- A step of `sdei_interrupt_bind`, up to where the mapping that is read may have changed
since. -/
def sdeiInterruptBindStep : Option (Dispatcher n × Option Int) :=
  match (s.cpus pe).binding with
  | .idle => none
  | .lookup intr i =>
    match s.map? ⟨platIcIsSpi intr, i⟩ with
    | none => some (bindTo s pe (.free intr 0), none)
    | some m =>
      if m.intr = intr then some (bindTo s pe (.found intr i), none)
      else some (bindTo s pe (.lookup intr (i + 1)), none)
  | .found intr i =>
    match s.map? ⟨platIcIsSpi intr, i⟩ with
    | none => none
    | some m =>
      if isMapDynamic m then
        if isMapBound m then some (bindTo s pe .idle, some m.evNum)
        else some (bindTo s pe (.free intr 0), none)
      else some (bindTo s pe .idle, some sdeiEinval)
  | .free intr i =>
    match s.map? ⟨platIcIsSpi intr, i⟩ with
    | none => some (bindTo s pe .idle, some sdeiEnomem)
    | some m =>
      if m.intr = sdeiDynIrq then
        if p.assertions ∧ ¬ isMapDynamic m then none
        else if s.gic.intrType (bank pe intr) intr ≠ .ns then
          some (bindTo s pe .idle, some sdeiEdeny)
        else some (bindTo s pe (.claim intr i), none)
      else some (bindTo s pe (.free intr (i + 1)), none)
  | .claim intr i =>
    match s.map? ⟨platIcIsSpi intr, i⟩ with
    | none => none
    | some m =>
      if isMapBound m then some (bindTo s pe (.lookup intr 0), none)
      else some ((bindTo s pe .idle).setMap ⟨platIcIsSpi intr, i⟩
        (setMapBound { m with intr := intr } true), some m.evNum)

/-- `sdei_interrupt_release`, with whether the interrupt is active. -/
def sdeiInterruptRelease (evNum : Int) (active : Nat → Bool) : Dispatcher n × Int :=
  match s.findEventMap evNum with
  | none => (s, sdeiEinval)
  | some (r, m) =>
    if ¬ isMapDynamic m then (s, sdeiEinval)
    else if m.regCount ≠ 0 then (s, sdeiEdeny)
    else
      match canSdeiStateTrans (s.entries (entryKey pe r m)).state .release with
      | none => (s, sdeiEdeny)
      | some _ =>
        if isMapBound m then
          if active m.intr then (s, sdeiEdeny)
          else (s.setMap r (setMapBound { m with intr := sdeiDynIrq } false), 0)
        else (s, sdeiEinval)

/-! ### Resets -/

/-- The events of a list are unregistered, where that is allowed. The return value says
whether one of them is still running. -/
def unregisterAll (s : Dispatcher n) : List Int → Option (Dispatcher n × Int)
  | [] => some (s, 0)
  | evNum :: evNums =>
    match sdeiEventUnregister p s pe evNum with
    | none => none
    | some (s, ret) => (unregisterAll s evNums).map fun out =>
      (out.1, if ret = sdeiEpend then sdeiEdeny else out.2)

/-- `sdei_private_reset` -/
def sdeiPrivateReset : Option (Dispatcher n × Int) :=
  unregisterAll p pe s ((s.maps false).map EvMap.evNum)

/-- The mappings of a list that are dynamic and bound are released. The return value is
that of the first release that fails. -/
def releaseAll (active : Nat → Bool) (s : Dispatcher n) : List MapRef → Dispatcher n × Int
  | [] => (s, 0)
  | r :: rs =>
    match s.map? r with
    | none => releaseAll active s rs
    | some m =>
      if isMapDynamic m ∧ isMapBound m then
        let (s, ret) := sdeiInterruptRelease s pe m.evNum active
        let (s, rest) := releaseAll active s rs
        (s, if ret ≠ 0 then ret else rest)
      else releaseAll active s rs

/-- `sdei_shared_reset` -/
def sdeiSharedReset (active : Nat → Bool) : Option (Dispatcher n × Int) :=
  match unregisterAll p pe s ((s.maps true).map EvMap.evNum) with
  | none => none
  | some (s, ret) =>
    if ret ≠ 0 then some (s, ret)
    else
      let refs := fun shared => (List.range (s.maps shared).length).map (MapRef.mk shared)
      some (releaseAll pe active s (refs false ++ refs true))

/-! ### Dispatching -/

/-- `setup_ns_dispatch`: the context of the normal world is pushed, and the normal world
is set up to run the handler. -/
def setupNsDispatch (r : MapRef) (m : EvMap) (se : SdeiEntry) (ctx : NsContext)
    (origin : Origin) : Option (Dispatcher n) :=
  let c := s.cpus pe
  if p.assertions ∧ maxEventNesting ≤ c.stack.length then none
  else
    let handler : NsContext :=
      { x := fun i =>
          if i = 0 then BitVec.ofInt 64 m.evNum
          else if i = 1 then se.arg
          else if i = 2 then ctx.elrEl3
          else if i = 3 then ctx.spsrEl3
          else ctx.x i
        elrEl3 := se.ep
        spsrEl3 := p.handlerSpsr }
    let g := s.gic
    some { s.setCpu pe { c with stack := ⟨r, ctx, origin⟩ :: c.stack, ns := handler } with
      gic := { g with active := Function.update g.active pe (mapToClass m :: g.active pe) } }

/-- `handle_masked_trigger` -/
def handleMaskedTrigger (m : EvMap) (se : SdeiEntry) : Option (Dispatcher n) :=
  if m.evNum = sdeiEvent0 then some s
  else if p.assertions ∧ se.regFlags = sdeiRegfRmPe ∧ se.affinity ≠ p.mpidr pe then none
  else if isEventPrivate m ∨ se.regFlags = sdeiRegfRmPe then
    some { s.setCpu pe { s.cpus pe with pendingEnables := true } with
      gic := s.gic.setEnabled pe m.intr false }
  else if p.assertions ∧ ¬ platIcIsSpi m.intr then none
  else some s

/-- `sdei_intr_handler`, up to where the handler of the event is entered. -/
def sdeiIntrHandler (intr : Nat) (ctx : NsContext) : Option (Dispatcher n) :=
  match s.findEventMapByIntr intr (platIcIsSpi intr) with
  | none => none
  | some (r, m) =>
    if p.assertions ∧ m.evNum ≠ sdeiEvent0 ∧ ¬ isMapBound m then none
    else
      let k := entryKey pe r m
      let se := s.entries k
      if (s.cpus pe).peMasked then handleMaskedTrigger p s pe m se
      else if p.assertions ∧ isEventShared m ∧ se.regFlags = sdeiRegfRmPe ∧
          se.affinity ≠ p.mpidr pe then none
      else
        match canSdeiStateTrans se.state .dispatch with
        | none => some s
        | some st =>
          let outstanding := ((s.cpus pe).stack.head?).bind fun disp => s.map? disp.map
          if p.assertions ∧ ¬ (if isEventCritical m then outstanding.all isEventNormal
              else (s.cpus pe).stack.isEmpty) then none
          else setupNsDispatch p (s.setEntry k { se with state := st }) pe r m se ctx .interrupt

/-- `sdei_dispatch_event`, up to where the handler of the event is entered. -/
def sdeiDispatchEvent (evNum : Int) (ctx : NsContext) : Option (Dispatcher n × Int) :=
  if (s.cpus pe).peMasked ∨ evNum = sdeiEvent0 then some (s, -1)
  else
    match s.findEventMap evNum with
    | none => some (s, -1)
    | some (r, m) =>
      if ¬ isMapExplicit m then some (s, -1)
      else
        let outstanding := ((s.cpus pe).stack.head?).bind fun disp => s.map? disp.map
        if outstanding.any isEventCritical ∨
            ((s.cpus pe).stack ≠ [] ∧ isEventNormal m) then some (s, -1)
        else
          let k := entryKey pe r m
          let se := s.entries k
          match canSdeiStateTrans se.state .dispatch with
          | none => some (s, -1)
          | some st =>
            (setupNsDispatch p (s.setEntry k { se with state := st }) pe r m se ctx .explicit).map
              fun s => (s, 0)

/-- `sdei_event_complete`, with the result of `plat_sdei_validate_entry_point`, and the rest
of the function that has dispatched the event. -/
def sdeiEventComplete (resume : Bool) (pc : U64) (pcValid : Bool) :
    Option (Dispatcher n × Int) :=
  let c := s.cpus pe
  match c.stack with
  | [] => some (s, sdeiEdeny)
  | disp :: stack =>
    if resume ∧ ¬ pcValid then some (s, sdeiEdeny)
    else
      match s.map? disp.map with
      | none => none
      | some m =>
        let k := entryKey pe disp.map m
        let se := s.entries k
        match canSdeiStateTrans se.state (if resume then .completeResume else .complete) with
        | none => some (s, sdeiEdeny)
        | some st =>
          let c := { c with stack := stack, ns := disp.saved }
          let c :=
            if resume then
              { c with
                ns := { disp.saved with elrEl3 := pc, spsrEl3 := p.handlerSpsr }
                clientElr := disp.saved.elrEl3
                clientSpsr := disp.saved.spsrEl3 }
            else c
          -- Back in the handler of the interrupt, the mapping must still be bound.
          if disp.origin = .interrupt ∧ m.evNum ≠ sdeiEvent0 ∧ ¬ isMapBound m then none
          else
            let g := s.gic
            some ({ (s.setEntry k { se with state := st }).setCpu pe c with
              gic := { g with active := Function.update g.active pe (g.active pe).tail } }, 0)

/-! ### Turning PEs on and off -/

/-- `sdei_cpu_on_init` -/
def sdeiCpuOnInit : Dispatcher n :=
  let entries := fun k =>
    if k.1 = some pe ∧ k.2 < (s.maps false).length then SdeiEntry.zero else s.entries k
  (sdeiPeMask { s with entries := entries } pe).1

/-- The PE turns itself off by PSCI. Its interrupt interface loses its state. -/
def cpuOff : Dispatcher n :=
  let g := s.gic
  { s.setCpu pe { s.cpus pe with online := false } with
    gic := { g with active := Function.update g.active pe [] } }

/-- The PE comes up after CPU_ON. -/
def cpuOn : Dispatcher n :=
  sdeiCpuOnInit (s.setCpu pe { s.cpus pe with online := true }) pe

end TrustedFirmware.Sdei
