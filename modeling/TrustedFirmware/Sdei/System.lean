import Mathlib.Data.List.Forall2
import TrustedFirmware.Lib.Run
import TrustedFirmware.Sdei.Calls

/-!
# The dispatcher and what happens to it

The dispatcher starts with mappings that pass the checks of `sdei_class_init`. From then
on PEs make calls, take interrupts, dispatch events, and go off and come back, in any
order.

An interrupt reaches the dispatcher as the interrupt controller delivers it: its priority
is that of the class of the event, so a normal event does not preempt any event and a
critical one no critical one, and a shared interrupt that is routed to one PE is taken
there.
-/

namespace TrustedFirmware.Sdei

open Option Prod

/-! ### Initialisation -/

/-- The checks of a shared mapping, with the event number of the one before it. -/
def checkSharedMap (evNumSoFar : Int) (m : EvMap) : Bool :=
  (evNumSoFar < 0 ∨ evNumSoFar < m.evNum) ∧ m.evNum ≠ sdeiEvent0 ∧ 0 ≤ m.evNum ∧
    isEventShared m ∧ ¬ isEventSignalable m ∧ ¬ isMapExplicit m

/-- The rest of the initialisation of a shared mapping, for mappings of the class. -/
def initSharedMap (cls : SdeiClass) (m : EvMap) : Option EvMap :=
  if mapToClass m ≠ cls then some m
  else if isMapDynamic m then
    if m.intr = sdeiDynIrq ∧ isEventNormal m then some { m with regCount := 0 } else none
  else if platIcIsSpi m.intr then some { setMapBound m true with regCount := 0 }
  else none

/-- The checks of a private mapping. -/
def checkPrivateMap (intrType : Nat → IntrType) (evNumSoFar : Int) (m : EvMap) : Bool :=
  (evNumSoFar < 0 ∨ evNumSoFar < m.evNum) ∧ (if m.evNum = sdeiEvent0 then
      platIcIsSgi m.intr ∧ intrType m.intr = .el3 ∧
        m.flags = ⟨false, false, true, true, false, false⟩
    else ¬ isEventSignalable m) ∧ 0 ≤ m.evNum ∧ isEventPrivate m ∧
    (isMapExplicit m → { m.flags with critical := true } = ⟨false, false, false, true, true, true⟩)

/-- The rest of the initialisation of a private mapping. -/
def initPrivateMap (cls : SdeiClass) (m : EvMap) : Option EvMap :=
  if mapToClass m ≠ cls then some m
  else if m.evNum = sdeiEvent0 then some { m with regCount := 0 }
  else if isMapDynamic m then
    if m.intr = sdeiDynIrq ∧ isEventNormal m then some { m with regCount := 0 } else none
  else if isMapExplicit m then
    if m.intr = sdeiDynIrq then some { m with regCount := 0 } else none
  else if platIcIsPpi m.intr then some { setMapBound m true with regCount := 0 }
  else none

/-- The loop over an array of mappings; `none` where a check fails. -/
def initMaps (check : Int → EvMap → Bool) (init : EvMap → Option EvMap) (evNumSoFar : Int) :
    List EvMap → Option (List EvMap)
  | [] => some []
  | m :: ms =>
    if check evNumSoFar m then
      (init m).bind fun m' => (initMaps check init m.evNum ms).map (m' :: ·)
    else none

section

variable {n : Nat} (p : Platform n)

/-- `sdei_class_init` -/
def sdeiClassInit (s : Dispatcher n) (cls : SdeiClass) : Option (Dispatcher n) :=
  let intrType := fun intr => s.gic.intrType (bank p.primary intr) intr
  (initMaps checkSharedMap (initSharedMap cls) (-1) (s.maps true)).bind fun shared =>
    (initMaps (checkPrivateMap intrType) (initPrivateMap cls) (-1) (s.maps false)).bind fun priv =>
      if (s.maps false).any fun m => m.evNum = sdeiEvent0 then
        let maps := fun kind => if kind then shared else priv
        some (sdeiCpuOnInit { s with maps := maps } p.primary)
      else none

/-- The state before the initialisation, when only the primary PE is on. -/
def atBoot (table : Bool → List EvMap) (g : Gic n) : Dispatcher n where
  maps := table
  entries := fun _ => SdeiEntry.zero
  cpus := fun pe => ⟨[], false, false, ⟨fun _ => 0, 0, 0⟩, 0, 0, pe = p.primary, .idle⟩
  gic := { g with active := fun _ => [] }

/-- `sdei_init` -/
def sdeiInit (table : Bool → List EvMap) (g : Gic n) : Option (Dispatcher n) :=
  (sdeiClassInit p (atBoot p table g) .critical).bind fun s => sdeiClassInit p s .normal

end

/-! ### Steps -/

/-- What happens: calls of the normal world, interrupts with the context of the normal
world, explicit dispatches, and what PSCI does. -/
inductive Event (n : Nat)
  | register (pe : Fin n) (evNum : Int) (ep arg flags mpidr : U64) (epValid active : Bool)
  | enable (pe : Fin n) (evNum : Int)
  | disable (pe : Fin n) (evNum : Int)
  | unregister (pe : Fin n) (evNum : Int)
  | routingSet (pe : Fin n) (evNum : Int) (flags mpidr : U64)
  | bind (pe : Fin n) (intr : Nat)
  | bindStep (pe : Fin n)
  | release (pe : Fin n) (evNum : Int) (active : Nat → Bool)
  | privateReset (pe : Fin n)
  | sharedReset (pe : Fin n) (active : Nat → Bool)
  | complete (pe : Fin n) (resume : Bool) (pc : U64) (pcValid : Bool)
  | mask (pe : Fin n)
  | unmask (pe : Fin n)
  | interrupt (pe : Fin n) (intr : Nat) (ctx : NsContext)
  | dispatch (pe : Fin n) (evNum : Int) (ctx : NsContext)
  | cpuOff (pe : Fin n)
  | cpuOn (pe : Fin n)
  | wakeup (pe : Fin n)

section

variable {n : Nat} (p : Platform n) (s : Dispatcher n)

/-- The priority of an event lets it preempt those that are being handled. -/
def preempts (active : List SdeiClass) : SdeiClass → Bool
  | .normal => active = []
  | .critical => .critical ∉ active

/-- A shared interrupt with this routing is taken on the PE. -/
def Routing.reaches (pe : Fin n) : Routing → Bool
  | .any => true
  | .pe affinity => affinity = p.mpidr pe

/-- The interrupt controller delivers the interrupt to the PE. -/
def delivers (pe : Fin n) (intr : Nat) : Bool :=
  ((s.findEventMapByIntr intr (platIcIsSpi intr)).all fun found =>
    preempts (s.gic.active pe) (mapToClass found.2)) &&
  (!platIcIsSpi intr || (s.gic.routing intr).reaches p pe)

/-- The PE is on and not in the middle of a call. -/
def ready (pe : Fin n) : Bool := (s.cpus pe).online ∧ (s.cpus pe).binding = .idle

/-- The event can happen. -/
def Event.possible : Event n → Bool
  | .bindStep pe => (s.cpus pe).online
  | .cpuOn pe => !(s.cpus pe).online
  | .interrupt pe intr _ => ready s pe ∧ delivers p s pe intr
  | .register pe .. | .enable pe _ | .disable pe _ | .unregister pe _ | .routingSet pe ..
  | .bind pe _ | .release pe .. | .privateReset pe | .sharedReset pe _ | .complete pe ..
  | .mask pe | .unmask pe | .dispatch pe .. | .cpuOff pe | .wakeup pe => ready s pe

/-- What it does. -/
def Event.exec : Event n → Option (Dispatcher n)
  | .register pe evNum ep arg flags mpidr epValid active =>
    (sdeiEventRegister p s pe evNum ep arg flags mpidr epValid active).map fst
  | .enable pe evNum => (sdeiEventEnable s pe evNum).map fst
  | .disable pe evNum => (sdeiEventDisable s pe evNum).map fst
  | .unregister pe evNum => (sdeiEventUnregister p s pe evNum).map fst
  | .routingSet pe evNum flags mpidr =>
    (sdeiEventRoutingSet p s pe evNum flags mpidr).map fst
  | .bind pe intr => some (sdeiInterruptBind s pe intr).1
  | .bindStep pe => (sdeiInterruptBindStep p s pe).map fst
  | .release pe evNum active => some (sdeiInterruptRelease s pe evNum active).1
  | .privateReset pe => (sdeiPrivateReset p s pe).map fst
  | .sharedReset pe active => (sdeiSharedReset p s pe active).map fst
  | .complete pe resume pc pcValid => (sdeiEventComplete p s pe resume pc pcValid).map fst
  | .mask pe => some (sdeiPeMask s pe).1
  | .unmask pe => some (sdeiPeUnmask p s pe)
  | .interrupt pe intr ctx => sdeiIntrHandler p s pe intr ctx
  | .dispatch pe evNum ctx => (sdeiDispatchEvent p s pe evNum ctx).map fst
  | .cpuOff pe => some (Sdei.cpuOff s pe)
  | .cpuOn pe => some (Sdei.cpuOn s pe)
  -- `sdei_cpu_wakeup_init`
  | .wakeup pe => some (sdeiPeMask s pe).1

/-- One step. -/
def Dispatcher.step (event : Event n) : Option (Dispatcher n) :=
  if event.possible p s then event.exec p s else none

variable {p s} {s' : Dispatcher n}

theorem step_eq_some {event : Event n} (h : s.step p event = some s') :
    event.possible p s = true ∧ event.exec p s = some s' := by
  unfold Dispatcher.step at h
  split_ifs at h with hpos
  exact ⟨hpos, h⟩

theorem exists_ret {out : Option (Dispatcher n × Int)}
    (h : out.map fst = some s') : ∃ ret, out = some (s', ret) := by
  obtain ⟨⟨t, ret⟩, hout, rfl⟩ := map_eq_some_iff.mp h
  exact ⟨ret, hout⟩

theorem online_of_ready {pe : Fin n} (h : ready s pe = true) : (s.cpus pe).online = true :=
  (of_decide_eq_true h).1

end

/-! ### The start -/

variable {n : Nat} {p : Platform n} {s s' : Dispatcher n} {prev : Int}

/-- What the initialisation does to the mappings of an array. -/
theorem initMaps_eq_some {check : Int → EvMap → Bool} {init : EvMap → Option EvMap}
    {evNumSoFar : Int} {ms ms' : List EvMap} (h : initMaps check init evNumSoFar ms = some ms') :
    List.Forall₂ (fun m m' => (∃ prev, check prev m = true) ∧ init m = some m') ms ms' := by
  induction ms generalizing evNumSoFar ms' with
  | nil =>
    cases h
    exact List.Forall₂.nil
  | cons m ms ih =>
    rw [initMaps] at h
    split_ifs at h with hchk
    obtain ⟨m', hm', hrest⟩ := bind_eq_some_iff.mp h
    obtain ⟨rest, hinit, rfl⟩ := map_eq_some_iff.mp hrest
    exact List.Forall₂.cons ⟨⟨evNumSoFar, hchk⟩, hm'⟩ (ih hinit)

/-- A mapping of the table that has passed the checks for its array, with its count
reset. -/
structure MapStarted (shared : Bool) (m : EvMap) : Prop where
  priv : isEventPrivate m = !shared
  evNum : 0 ≤ m.evNum
  count : m.regCount = 0
  intr : isMapBound m = true → isMapDynamic m = false → platIcIsSpi m.intr = shared
  dyn : isMapDynamic m = true → m.intr = sdeiDynIrq
  free : isMapBound m = false → platIcIsSgi m.intr = true
  idle : isMapBound m = false → m.evNum ≠ sdeiEvent0 → m.intr = sdeiDynIrq

theorem initSharedMap_started {m m' : EvMap} (hchk : checkSharedMap prev m = true)
    (h : initSharedMap (mapToClass m) m = some m') : MapStarted true m' := by
  have hchks := of_decide_eq_true hchk
  obtain ⟨-, -, hnum, hsh, -, -⟩ := hchks
  have hpriv : isEventPrivate m = false := by simpa [isEventShared] using hsh
  unfold initSharedMap at h
  rw [if_neg (not_not.mpr rfl)] at h
  split at h
  next hdyn =>
    split_ifs at h with hintr
    cases h
    refine ⟨hpriv, hnum, rfl, fun _ hno => ?_, fun _ => hintr.1, fun _ => ?_, fun _ _ => hintr.1⟩
    · cases hno.symm.trans hdyn
    · simp only [hintr.1]
      rfl
  next hdyn =>
    split_ifs at h with hspi
    cases h
    exact ⟨hpriv, hnum, rfl, fun _ _ => hspi, fun hyes => absurd hyes hdyn,
      fun hfree => (nomatch hfree), fun hfree => (nomatch hfree)⟩

theorem initPrivateMap_started {intrType : Nat → IntrType} {m m' : EvMap}
    (hchk : checkPrivateMap intrType prev m = true)
    (h : initPrivateMap (mapToClass m) m = some m') : MapStarted false m' := by
  have hchks := of_decide_eq_true hchk
  obtain ⟨-, hzero, hnum, hpriv, hexpl⟩ := hchks
  unfold initPrivateMap at h
  rw [if_neg (not_not.mpr rfl)] at h
  by_cases hev : m.evNum = sdeiEvent0
  · -- Event 0 is neither dynamic nor bound.
    rw [if_pos hev] at h hzero
    cases h
    obtain ⟨hsgi, -, hfl⟩ := hzero
    refine ⟨hpriv, hnum, rfl, fun hbd _ => ?_, fun hdyn => ?_, fun _ => hsgi,
      fun _ hne => absurd hev hne⟩
    · simp [isMapBound, hfl] at hbd
    · simp [isMapDynamic, hfl] at hdyn
  rw [if_neg hev] at h
  by_cases hdyn : isMapDynamic m
  · split_ifs at h with hintr
    cases h
    refine ⟨hpriv, hnum, rfl, fun _ hno => ?_, fun _ => hintr.1, fun _ => ?_, fun _ _ => hintr.1⟩
    · cases hno.symm.trans hdyn
    · simp only [hintr.1]
      rfl
  rw [if_neg hdyn] at h
  split at h
  next hexp =>
    split_ifs at h with hintr
    cases h
    refine ⟨hpriv, hnum, rfl, fun hbd _ => ?_, fun _ => hintr, fun _ => ?_, fun _ _ => hintr⟩
    · have hfl := congrArg MapFlags.bound (hexpl hexp)
      cases hfl.symm.trans hbd
    · simp only [hintr]
      rfl
  next hexp =>
    split_ifs at h with hppi
    cases h
    refine ⟨hpriv, hnum, rfl, fun _ _ => ?_, fun hyes => absurd hyes hdyn,
      fun hfree => (nomatch hfree), fun hfree => (nomatch hfree)⟩
    have hrg := of_decide_eq_true hppi
    exact decide_eq_false fun hspi => absurd hspi.1 (not_le.mpr hrg.2)

/-- The first pass leaves the mappings of the other class alone, and the second one those
of the first. -/
theorem two_passes {ok started : EvMap → Prop} {init : SdeiClass → EvMap → Option EvMap}
    {m₀ m₁ m₂ : EvMap} (hoth : ∀ cls m, mapToClass m ≠ cls → init cls m = some m)
    (hcla : ∀ cls m m', init cls m = some m' → mapToClass m' = mapToClass m)
    (hstt : ∀ m m', ok m → init (mapToClass m) m = some m' → started m')
    (h₁ : ok m₀ ∧ init .critical m₀ = some m₁) (h₂ : ok m₁ ∧ init .normal m₁ = some m₂) :
    started m₂ := by
  obtain ⟨hok, hfst⟩ := h₁
  obtain ⟨hok', hsnd⟩ := h₂
  cases hcls : mapToClass m₀ with
  | critical =>
    have hnot : mapToClass m₁ ≠ .normal := by
      rw [hcla _ _ _ hfst, hcls]
      decide
    rw [hoth _ _ hnot] at hsnd
    cases hsnd
    exact hstt m₀ m₁ hok (by rw [hcls]; exact hfst)
  | normal =>
    rw [hoth _ _ (by rw [hcls]; decide)] at hfst
    cases hfst
    exact hstt m₀ m₂ hok' (by rw [hcls]; exact hsnd)

theorem mapToClass_initSharedMap (cls : SdeiClass) (m m' : EvMap)
    (h : initSharedMap cls m = some m') : mapToClass m' = mapToClass m := by
  unfold initSharedMap at h
  split_ifs at h <;> obtain rfl := some.inj h <;> rfl

theorem mapToClass_initPrivateMap (cls : SdeiClass) (m m' : EvMap)
    (h : initPrivateMap cls m = some m') : mapToClass m' = mapToClass m := by
  unfold initPrivateMap at h
  split_ifs at h <;> obtain rfl := some.inj h <;> rfl

theorem forall₂_getElem? {α β : Type*} {R : α → β → Prop} {l : List α} {l' : List β}
    (h : List.Forall₂ R l l') {i : Nat} {b : β} (hb : l'[i]? = some b) :
    ∃ a, l[i]? = some a ∧ R a b := by
  induction h generalizing i with
  | nil => simp at hb
  | cons hab _ ih =>
    cases i with
    | zero =>
      cases hb
      exact ⟨_, rfl, hab⟩
    | succ => exact ih hb

/-- The state after the initialisation. -/
structure Dispatcher.Started (s : Dispatcher n) : Prop where
  maps : ∀ r m, s.map? r = some m → MapStarted r.shared m
  entries : ∀ k, s.entries k = SdeiEntry.zero
  stack : ∀ pe, (s.cpus pe).stack = []
  active : ∀ pe, s.gic.active pe = []
  idle : ∀ pe, (s.cpus pe).binding = .idle
  pending : ∀ pe, (s.cpus pe).pendingEnables = false

/-- What a pass leaves as it was. -/
structure PassOf (s s' : Dispatcher n) : Prop where
  entries : (∀ k, s.entries k = SdeiEntry.zero) → ∀ k, s'.entries k = SdeiEntry.zero
  stack : ∀ pe, (s'.cpus pe).stack = (s.cpus pe).stack
  active : s'.gic.active = s.gic.active
  idle : ∀ pe, (s'.cpus pe).binding = (s.cpus pe).binding
  pending : ∀ pe, (s'.cpus pe).pendingEnables = (s.cpus pe).pendingEnables

/-- The mapping has passed the checks of its array. -/
def SharedOk (m : EvMap) : Prop := ∃ prev, checkSharedMap prev m = true

def PrivateOk (m : EvMap) : Prop := ∃ intrType prev, checkPrivateMap intrType prev m = true

theorem sdeiClassInit_eq_some {cls : SdeiClass} (h : sdeiClassInit p s cls = some s') :
    PassOf s s' ∧
    List.Forall₂ (fun m m' => SharedOk m ∧ initSharedMap cls m = some m') (s.maps true)
      (s'.maps true) ∧
    List.Forall₂ (fun m m' => PrivateOk m ∧ initPrivateMap cls m = some m') (s.maps false)
      (s'.maps false) := by
  obtain ⟨shared, hsh, h⟩ := bind_eq_some_iff.mp h
  obtain ⟨priv, hpriv, h⟩ := bind_eq_some_iff.mp h
  split_ifs at h with hzero
  cases h
  refine ⟨⟨fun hall k => ?_, fun pe => ?_, rfl, fun pe => ?_, fun pe => ?_⟩,
    initMaps_eq_some hsh, (initMaps_eq_some hpriv).imp fun _ _ h => ⟨⟨_, h.1⟩, h.2⟩⟩
  · by_cases hk : k.1 = some p.primary ∧ k.2 < priv.length
    · exact if_pos hk
    · exact (if_neg hk).trans (hall k)
  all_goals
    simp only [sdeiCpuOnInit, sdeiPeMask, Dispatcher.setCpu, Function.update_apply]
    split_ifs with hpe
    · subst hpe
      rfl
    · rfl

/-- **The dispatcher starts** with mappings that have passed the checks, and nothing
else. -/
theorem sdeiInit_started {table : Bool → List EvMap} {g : Gic n}
    (h : sdeiInit p table g = some s) : s.Started := by
  obtain ⟨t, hfst, hsnd⟩ := bind_eq_some_iff.mp h
  obtain ⟨hpass, hsh, hpriv⟩ := sdeiClassInit_eq_some hfst
  obtain ⟨hpass', hshared', hpriv'⟩ := sdeiClassInit_eq_some hsnd
  refine ⟨fun r m hmap => ?_, hpass'.entries (hpass.entries fun _ => rfl), fun pe => ?_,
    fun pe => ?_, fun pe => ?_, fun pe => ?_⟩
  · obtain ⟨shared, i⟩ := r
    cases shared with
    | true =>
      obtain ⟨m₁, hm₁, h₂⟩ := forall₂_getElem? hshared' hmap
      obtain ⟨m₀, -, h₁⟩ := forall₂_getElem? hsh hm₁
      have hoth : ∀ cls m, mapToClass m ≠ cls → initSharedMap cls m = some m :=
        fun cls m hne => if_pos hne
      exact two_passes hoth mapToClass_initSharedMap
        (fun m m' hok => initSharedMap_started hok.choose_spec) h₁ h₂
    | false =>
      obtain ⟨m₁, hm₁, h₂⟩ := forall₂_getElem? hpriv' hmap
      obtain ⟨m₀, -, h₁⟩ := forall₂_getElem? hpriv hm₁
      have hoth : ∀ cls m, mapToClass m ≠ cls → initPrivateMap cls m = some m :=
        fun cls m hne => if_pos hne
      exact two_passes hoth mapToClass_initPrivateMap
        (fun m m' hok => initPrivateMap_started hok.choose_spec.choose_spec) h₁ h₂
  · exact (hpass'.stack pe).trans (hpass.stack pe)
  · rw [hpass'.active, hpass.active]
    rfl
  · exact (hpass'.idle pe).trans (hpass.idle pe)
  · exact (hpass'.pending pe).trans (hpass.pending pe)

/-! ### A platform -/

/-- Two PEs. -/
def samplePlatform (assertions : Bool) : Platform 2 where
  assertions := assertions
  primary := 0
  mpidr pe := BitVec.ofNat 64 pe.val
  mpidr_injective := by
    unfold Function.Injective
    decide
  platCorePosByMpidr mpidr := if h : mpidr.toNat < 2 then some ⟨mpidr.toNat, h⟩ else none
  handlerSpsr := 0x3c9

/-- Private events for signals, for two interrupts, one of them critical, and for an
interrupt to be bound; shared events for an interrupt and for two to be bound. -/
def sampleTable : Bool → List EvMap
  | false =>
    [⟨0, 8, ⟨false, false, true, true, false, false⟩, 0⟩,
      ⟨8, 23, ⟨false, true, false, true, false, false⟩, 0⟩,
      ⟨9, 24, ⟨false, true, false, true, true, false⟩, 0⟩,
      ⟨100, 0, ⟨true, false, false, true, false, false⟩, 0⟩]
  | true =>
    [⟨804, 40, ⟨false, true, false, false, false, false⟩, 0⟩,
      ⟨3000, 0, ⟨true, false, false, false, false, false⟩, 0⟩,
      ⟨3001, 0, ⟨true, false, false, false, false, false⟩, 0⟩]

/-- The signal belongs to EL3 and all other interrupts to the normal world. -/
def sampleGic : Gic 2 where
  enabled _ _ := false
  intrType _ intr := if intr = 8 then .el3 else .ns
  routing _ := .any
  active _ := []

def sampleStart (assertions : Bool) : Dispatcher 2 :=
  (sdeiInit (samplePlatform assertions) sampleTable sampleGic).get (by cases assertions <;> decide)

theorem sampleStart_init (assertions : Bool) :
    sdeiInit (samplePlatform assertions) sampleTable sampleGic = some (sampleStart assertions) :=
  (some_get _).symm

/-- The context that an interrupt finds. -/
def sampleContext : NsContext := ⟨fun _ => 0, 0, 0⟩

end TrustedFirmware.Sdei
