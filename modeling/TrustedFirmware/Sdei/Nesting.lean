import TrustedFirmware.Sdei.Effects

/-!
# The stacks of events that are being handled

When a PE is turned off in the handler of an event and on again, its private entries are
cleared but its stack is not (`event_left_on_stack`). If PEs are turned off only with an empty
stack, then in every run the stack of a PE has a normal event at the bottom and a critical one
on top, at most, and the entries that are running are those of the events on the stacks
(`stacks_are_running`).
-/

namespace TrustedFirmware.Sdei

open Lib List Option Function Dispatcher EvMap

variable {n : Nat} {p : Platform n} {s s' : Dispatcher n} {pe : Fin n} {r : MapRef} {m m' : EvMap}

/-! ### The invariant -/

/-- The events on the stack of a PE, the top first. -/
def Dispatcher.refs (s : Dispatcher n) (pe : Fin n) : List MapRef :=
  (s.cpus pe).stack.map DispatchContext.map

/-- Where the entry of an event is, by the array of its mapping. -/
def keyOf (pe : Fin n) (r : MapRef) : Option (Fin n) × Nat :=
  (if r.shared then none else some pe, r.idx)

/-- The class of an event. -/
def Dispatcher.classOf (s : Dispatcher n) (r : MapRef) : SdeiClass :=
  (s.map? r).elim .normal mapToClass

/-- A normal event at the bottom and a critical one on top, at most. -/
def WellNested (classes : List SdeiClass) : Prop :=
  classes = [] ∨ classes = [.normal] ∨ classes = [.critical] ∨ classes = [.critical, .normal]
  deriving Decidable

/-- What no call changes of a mapping. -/
def EvMap.fixed (m : EvMap) : Int × Bool × Bool × Bool :=
  (m.evNum, m.flags.dynamic, m.flags.priv, m.flags.critical)

/-- The stacks are nested by class, as the interrupt controller sees them, and the
running entries are those of the events on them. -/
structure StacksOk (s : Dispatcher n) : Prop where
  priv : ∀ r m, s.map? r = some m → isEventPrivate m = !r.shared
  mapped : ∀ pe, ∀ r ∈ s.refs pe, ∃ m, s.map? r = some m
  off : ∀ pe, (s.cpus pe).online = false → s.refs pe = []
  active : ∀ pe, s.gic.active pe = (s.refs pe).map s.classOf
  nested : ∀ pe, WellNested ((s.refs pe).map s.classOf)
  once : ∀ pe, (s.refs pe).Nodup
  owner : ∀ pe pe' r r', r ∈ s.refs pe → r' ∈ s.refs pe' → keyOf pe r = keyOf pe' r' → pe = pe'
  running : ∀ k, (s.entries k).state.running = true ↔ ∃ pe, ∃ r ∈ s.refs pe, keyOf pe r = k

theorem entryKey_eq_keyOf (h : isEventPrivate m = !r.shared) (pe : Fin n) :
    entryKey pe r m = keyOf pe r := by
  unfold entryKey keyOf
  rw [h]
  cases r.shared <;> rfl

theorem classOf_eq (hmap : s.map? r = some m) : s.classOf r = mapToClass m := by
  unfold classOf
  rw [hmap]
  rfl

theorem fixed_setMap (hmap : s.map? r = some m) (hfix : m'.fixed = m.fixed) (q : MapRef) :
    ((s.setMap r m').map? q).map fixed = (s.map? q).map fixed := by
  rw [map?_setMap hmap]
  split_ifs with hq
  · rw [hq, hmap, map_some, map_some, hfix]
  · rfl

theorem classOf_congr (h : ∀ q, (s'.map? q).map fixed = (s.map? q).map fixed) :
    s'.classOf = s.classOf := by
  funext q
  have hq := h q
  unfold classOf
  cases hm : s.map? q with
  | none =>
    rw [hm, map_none, map_eq_none_iff] at hq
    rw [hq]
  | some m =>
    rw [hm, map_some, map_eq_some_iff] at hq
    obtain ⟨m', hm', hfix⟩ := hq
    simp only [fixed, Prod.mk.injEq] at hfix
    have hcrit : isEventCritical m' = isEventCritical m := hfix.2.2.2
    rw [hm', elim_some, elim_some, mapToClass, mapToClass, hcrit]

/-- **Calls that dispatch and complete nothing.** -/
theorem StacksOk.keep (h : StacksOk s) (hfix : ∀ q, (s'.map? q).map fixed = (s.map? q).map fixed)
    (hrun : ∀ k, (s'.entries k).state.running = (s.entries k).state.running)
    (hstk : ∀ pe, (s'.cpus pe).stack = (s.cpus pe).stack)
    (hon : ∀ pe, (s'.cpus pe).online = false → (s.cpus pe).online = false ∨ s.refs pe = [])
    (hact : s'.gic.active = s.gic.active) : StacksOk s' := by
  have hrefs : s'.refs = s.refs := by
    funext pe
    rw [refs, hstk pe]
    rfl
  have hcls := classOf_congr hfix
  refine ⟨fun r m hmap => ?_, fun pe r hr => ?_, fun pe hoff => ?_, fun pe => ?_, fun pe => ?_,
    fun pe => ?_, ?_, fun k => ?_⟩
  · have hr := hfix r
    rw [hmap, map_some, eq_comm, map_eq_some_iff] at hr
    obtain ⟨m', hm', heq⟩ := hr
    simp only [fixed, Prod.mk.injEq] at heq
    have hpriv := h.priv r m' hm'
    rw [isEventPrivate, heq.2.2.1] at hpriv
    exact hpriv
  · rw [hrefs] at hr
    obtain ⟨m, hm⟩ := h.mapped pe r hr
    have hr := hfix r
    rw [hm, map_some, map_eq_some_iff] at hr
    obtain ⟨m', hm', -⟩ := hr
    exact ⟨m', hm'⟩
  · rw [hrefs]
    exact (hon pe hoff).elim (h.off pe) id
  · rw [hact, hrefs, hcls]
    exact h.active pe
  · rw [hrefs, hcls]
    exact h.nested pe
  · rw [hrefs]
    exact h.once pe
  · rw [hrefs]
    exact h.owner
  · rw [hrun, hrefs]
    exact h.running k

variable {classes : List SdeiClass} {c : CpuState}

/-- An event that may preempt goes on top. -/
theorem WellNested.push {cls : SdeiClass} (h : WellNested classes)
    (hpre : preempts classes cls = true) : WellNested (cls :: classes) := by
  rcases h with rfl | rfl | rfl | rfl <;> cases cls <;> simp_all [preempts, WellNested]

theorem WellNested.tail (h : WellNested classes) : WellNested classes.tail := by
  rcases h with rfl | rfl | rfl | rfl <;> decide

theorem WellNested.length_le (h : WellNested classes) : classes.length ≤ maxEventNesting := by
  rcases h with rfl | rfl | rfl | rfl <;> decide

/-! ### What steps preserve -/

/-- A running event is on the stack of a PE, or on another. -/
theorem StacksOk.running_iff (h : StacksOk s) (pe : Fin n) (k : Option (Fin n) × Nat) :
    (s.entries k).state.running = true ↔
      (∃ r ∈ s.refs pe, keyOf pe r = k) ∨ ∃ q ≠ pe, ∃ r ∈ s.refs q, keyOf q r = k := by
  rw [h.running k, ← exists_update_iff s.refs fun q l => ∃ r ∈ l, keyOf q r = k, update_eq_self]

/-- **A change of one stack**: the events that come onto it or leave it are those whose
entries start or stop running. -/
theorem StacksOk.restack (h : StacksOk s) {key : Option (Fin n) × Nat} {se : SdeiEntry}
    {refs : List MapRef} (hs' : s' = { (s.setEntry key se).setCpu pe c with
      gic := { s.gic with active := update s.gic.active pe (refs.map s.classOf) } })
    (hrefs : c.stack.map DispatchContext.map = refs) (hon : c.online = true)
    (hma : ∀ r ∈ refs, ∃ m, s.map? r = some m) (hnest : WellNested (refs.map s.classOf))
    (honce : refs.Nodup)
    (hrun : ∀ k, (s'.entries k).state.running = true ↔
      (∃ r ∈ refs, keyOf pe r = k) ∨ ∃ q ≠ pe, ∃ r ∈ s.refs q, keyOf q r = k)
    (hfr : ∀ r ∈ refs, ∀ q ≠ pe, ∀ r' ∈ s.refs q, keyOf q r' ≠ keyOf pe r) : StacksOk s' := by
  have hself : s'.refs = update s.refs pe refs := by
    funext q
    simp only [hs', Dispatcher.refs, setCpu, setEntry, update_apply]
    split_ifs
    · exact hrefs
    · rfl
  have hall (P : Fin n → List MapRef → Prop) (hpe : P pe refs) (hoth : ∀ q ≠ pe, P q (s.refs q))
      (q : Fin n) : P q (s'.refs q) := by
    rw [hself]
    exact (forall_update_iff s.refs P).mpr ⟨hpe, hoth⟩ q
  have hmap : s'.map? = s.map? := map?_congr (by rw [hs']; rfl)
  have hcls : s'.classOf = s.classOf := classOf_congr fun q => by rw [hmap]
  refine ⟨hmap ▸ h.priv, ?_, ?_, ?_, ?_, ?_, ?_, fun k => ?_⟩
  · rw [hmap]
    exact hall (fun _ l => ∀ r ∈ l, ∃ m, s.map? r = some m) hma fun q _ => h.mapped q
  · refine hall (fun q l => (s'.cpus q).online = false → l = []) (fun hoff => ?_)
      fun q hq hoff => ?_
    · simp [hs', setCpu, hon] at hoff
    · exact h.off q (by simpa [hs', setCpu, setEntry, hq] using hoff)
  · rw [hcls]
    refine hall (fun q l => s'.gic.active q = l.map s.classOf) ?_ fun q hq => ?_
    · simp [hs']
    · simpa [hs', hq] using h.active q
  · rw [hcls]
    exact hall (fun _ l => WellNested (l.map s.classOf)) hnest fun q _ => h.nested q
  · exact hall (fun _ l => l.Nodup) honce fun q _ => h.once q
  · refine hall (fun q l => ∀ q' r r', r ∈ l → r' ∈ s'.refs q' → keyOf q r = keyOf q' r' → q = q')
      (fun q' r r' hr hr' heq => ?_) fun q hq q' r r' hr hr' heq => ?_
    · by_contra hq'
      rw [hself, update_of_ne (Ne.symm hq')] at hr'
      exact hfr r hr q' (Ne.symm hq') r' hr' heq.symm
    · by_cases hq' : q' = pe
      · subst hq'
        rw [hself, update_self] at hr'
        exact absurd heq (hfr r' hr' q hq r hr)
      · rw [hself, update_of_ne hq'] at hr'
        exact h.owner q q' r r' hr hr' heq
  · rw [hrun, hself, exists_update_iff s.refs fun q l => ∃ r ∈ l, keyOf q r = k]

theorem keyOf_inj {r' : MapRef} (h : keyOf pe r = keyOf pe r') : r = r' := by
  obtain ⟨shared, i⟩ := r
  obtain ⟨shared', i'⟩ := r'
  cases shared <;> cases shared' <;> simp_all [keyOf]

/-- **A dispatch** pushes an event whose entry was not running. -/
theorem StacksOk.dispatched (h : StacksOk s) (hon : (s.cpus pe).online = true)
    (hpre : preempts (s.gic.active pe) (mapToClass m) = true) {origin : Origin}
    (hd : Dispatched p pe r m origin s s') :
    StacksOk s' := by
  obtain ⟨hmap, hst, -, ctx, ns, rfl⟩ := hd
  have hkey : entryKey pe r m = keyOf pe r := entryKey_eq_keyOf (h.priv r m hmap) pe
  rw [hkey] at hst ⊢
  -- No stack has the event yet.
  have hfr : ∀ q, ∀ r' ∈ s.refs q, keyOf q r' ≠ keyOf pe r := by
    intro q r' hr' heq
    have hrun := (h.running (keyOf pe r)).mpr ⟨q, r', hr', heq⟩
    rw [hst] at hrun
    cases hrun
  have hcls : (r :: s.refs pe).map s.classOf = mapToClass m :: s.gic.active pe := by
    rw [map_cons, classOf_eq hmap, h.active pe]
  rw [← hcls]
  refine h.restack rfl rfl hon (forall_mem_cons.mpr ⟨⟨m, hmap⟩, h.mapped pe⟩) ?_ ?_ (fun k => ?_)
    (forall_mem_cons.mpr ⟨fun q _ => hfr q, fun r' hr' q hq r'' hr'' heq => ?_⟩)
  · rw [hcls]
    have hnest := h.nested pe
    rw [← h.active pe] at hnest
    exact hnest.push hpre
  · exact nodup_cons.mpr ⟨fun hr => hfr pe r hr rfl, h.once pe⟩
  · simp only [setCpu, setEntry]
    obtain rfl | hk := eq_or_ne k (keyOf pe r)
    · simp
    · rw [update_of_ne hk, h.running_iff pe k]
      simp [Ne.symm hk]
  · exact hq (h.owner q pe r'' r' hr'' hr' heq)

/-- **A completion** pops the event, and no other stack has it. -/
theorem StacksOk.completed (h : StacksOk s) {disp : DispatchContext} {stack : List DispatchContext}
    {ns : NsContext} {elr spsr : U64} (hon : (s.cpus pe).online = true)
    (hstk : (s.cpus pe).stack = disp :: stack) (hmap : s.map? disp.map = some m) :
    StacksOk { (s.setEntry (entryKey pe disp.map m) { s.entries (entryKey pe disp.map m) with
        state := { (s.entries (entryKey pe disp.map m)).state with running := false } }).setCpu pe
          { s.cpus pe with stack := stack, ns := ns, clientElr := elr, clientSpsr := spsr } with
      gic := { s.gic with
        active := update s.gic.active pe (s.gic.active pe).tail } } := by
  have hkey : entryKey pe disp.map m = keyOf pe disp.map :=
    entryKey_eq_keyOf (h.priv disp.map m hmap) pe
  rw [hkey]
  have hrefs : s.refs pe = disp.map :: stack.map DispatchContext.map := by
    rw [refs, hstk, map_cons]
  have honce := h.once pe
  have hnest := h.nested pe
  have hact := h.active pe
  rw [hrefs] at honce hnest hact
  obtain ⟨htop, honce⟩ := nodup_cons.mp honce
  rw [hact]
  refine h.restack rfl rfl hon (fun r' hr' => ?_) hnest.tail honce (fun k => ?_)
    fun r' hr' q hq r'' hr'' heq => ?_
  · exact h.mapped pe r' (by rw [hrefs]; exact mem_cons_of_mem _ hr')
  · simp only [setCpu, setEntry]
    obtain rfl | hk := eq_or_ne k (keyOf pe disp.map)
    · rw [update_self]
      refine ⟨fun hrun => absurd hrun Bool.false_ne_true, fun hex => ?_⟩
      rcases hex with ⟨r', hr', heq⟩ | ⟨q, hq, r', hr', heq⟩
      · exact absurd (keyOf_inj heq ▸ hr') htop
      · exact absurd (h.owner q pe r' disp.map hr' (by simp [hrefs]) heq) hq
    · rw [update_of_ne hk, h.running_iff pe k, hrefs]
      simp [Ne.symm hk]
  · exact hq (h.owner q pe r'' r' hr'' (by rw [hrefs]; exact mem_cons_of_mem _ hr') heq)

/-- **A change of one entry** that is running as before. -/
theorem running_setEntry {k : Option (Fin n) × Nat} {se : SdeiEntry}
    (h : se.state.running = (s.entries k).state.running) (k' : Option (Fin n) × Nat) :
    ((s.setEntry k se).entries k').state.running = (s.entries k').state.running := by
  obtain rfl | hk := eq_or_ne k' k
  · simpa [setEntry] using h
  · simp [setEntry, hk]

/-- A change of a PE that leaves its stack alone and does not turn it off. -/
theorem StacksOk.setCpu (h : StacksOk s) (hstk : c.stack = (s.cpus pe).stack)
    (hon : c.online = (s.cpus pe).online) : StacksOk (s.setCpu pe c) := by
  refine h.keep (fun _ => rfl) (fun _ => rfl) (cpus_setCpu _ hstk) (fun q => ?_) rfl
  obtain rfl | hq := eq_or_ne q pe
  · simp only [Dispatcher.setCpu, update_self, hon]
    exact .inl
  · simp only [Dispatcher.setCpu, update_of_ne hq]
    exact .inl

theorem registerInterrupt_active (g : Gic n) (flags mpidr : U64) :
    (registerInterrupt pe g m flags mpidr).active = g.active := by
  unfold registerInterrupt
  split_ifs
  · rfl
  · rfl

/-- **An explicit dispatch**: what the call checks on the stack is what the priorities check. -/
theorem StacksOk.preempts (h : StacksOk s)
    (hfree : ∀ disp m', (s.cpus pe).stack.head? = some disp → s.map? disp.map = some m' →
      isEventCritical m' = false ∧ isEventNormal m = false) :
    preempts (s.gic.active pe) (mapToClass m) = true := by
  rw [h.active pe]
  cases hstk : (s.cpus pe).stack with
  | nil =>
    have hrefs : s.refs pe = [] := by rw [refs, hstk, map_nil]
    rw [hrefs]
    cases mapToClass m <;> rfl
  | cons disp stack =>
    have hrefs : s.refs pe = disp.map :: stack.map DispatchContext.map := by
      rw [refs, hstk, map_cons]
    obtain ⟨m', hmap'⟩ := h.mapped pe disp.map (by simp [hrefs])
    obtain ⟨htop, hcrit⟩ := hfree disp m' (by rw [hstk]; rfl) hmap'
    have hcls : s.classOf disp.map = .normal := by
      rw [classOf_eq hmap', mapToClass, htop]
      rfl
    have hm : mapToClass m = .critical := by
      have : isEventCritical m = true := by simpa [isEventNormal] using hcrit
      rw [mapToClass, this]
      rfl
    have hnest := h.nested pe
    rw [hrefs, map_cons, hcls] at hnest ⊢
    rw [hm]
    rcases hnest with heq | heq | heq | heq
    · cases heq
    · rw [heq]
      rfl
    · cases heq
    · cases heq

/-- A PE that is turned off with an empty stack. -/
theorem StacksOk.cpuOff (h : StacksOk s) (hemp : (s.cpus pe).stack = []) :
    StacksOk (Sdei.cpuOff s pe) := by
  have hrefs : s.refs pe = [] := by rw [refs, hemp, map_nil]
  have hact : s.gic.active pe = [] := by rw [h.active, hrefs, map_nil]
  refine h.keep (fun _ => rfl) (fun _ => rfl) (cpus_setCpu _ rfl) (fun q => ?_) ?_
  · obtain rfl | hq := eq_or_ne q pe
    · exact fun _ => Or.inr hrefs
    · simp only [Sdei.cpuOff, Dispatcher.setCpu, update_of_ne hq]
      exact Or.inl
  · funext q
    obtain rfl | hq := eq_or_ne q pe
    · simp [Sdei.cpuOff, hact]
    · simp [Sdei.cpuOff, hq]

theorem stack_cpuOn (q : Fin n) : ((Sdei.cpuOn s pe).cpus q).stack = (s.cpus q).stack := by
  obtain rfl | hq := eq_or_ne q pe
  · simp [Sdei.cpuOn, sdeiCpuOnInit, sdeiPeMask, setCpu]
  · simp [Sdei.cpuOn, sdeiCpuOnInit, sdeiPeMask, setCpu, hq]

/-- A PE that comes back has no private event that is running. -/
theorem StacksOk.cpuOn (h : StacksOk s) (hoff : (s.cpus pe).online = false) :
    StacksOk (Sdei.cpuOn s pe) := by
  have hrefs : s.refs pe = [] := h.off pe hoff
  have hidle : ∀ i, (s.entries (some pe, i)).state.running = false := by
    intro i
    rw [Bool.eq_false_iff]
    intro hrun
    obtain ⟨q, r, hr, heq⟩ := (h.running (some pe, i)).mp hrun
    obtain ⟨hpe, -⟩ := Prod.mk.inj heq
    split_ifs at hpe
    cases hpe
    rw [hrefs] at hr
    cases hr
  refine h.keep (fun _ => rfl) (fun k => ?_) stack_cpuOn (fun q => ?_) rfl
  · obtain ⟨q, i⟩ := k
    rw [cpuOn_entries]
    by_cases hk : q = some pe ∧ i < (s.maps false).length
    · rw [if_pos hk, hk.1]
      exact (hidle i).symm
    · rw [if_neg hk]
  · obtain rfl | hq := eq_or_ne q pe
    · exact fun _ => .inl hoff
    · simp only [Sdei.cpuOn, sdeiCpuOnInit, sdeiPeMask, Dispatcher.setCpu, update_of_ne hq]
      exact .inl

/-! ### Runs -/

/-- A PE is turned off only when it handles no event. -/
def offOutsideHandlers (s : Dispatcher n) : Event n → Bool
  | .cpuOff pe => (s.cpus pe).stack.isEmpty
  | _ => true

variable {event : Event n}

theorem StacksOk.move (h : StacksOk s) (hok : offOutsideHandlers s event = true)
    (hmove : Move p s event s') : StacksOk s' := by
  cases hmove with
  | refuse => exact h
  | register hmap hst =>
    refine h.keep (fixed_setMap hmap rfl) (running_setEntry (by rw [hst])) (fun _ => rfl)
      (fun _ => .inl) ?_
    split_ifs
    · exact registerInterrupt_active ..
    · rfl
  | unregister hmap =>
    refine h.keep (fixed_setMap hmap rfl) (running_setEntry rfl) (fun _ => rfl) (fun _ => .inl) ?_
    split_ifs
    · rfl
    · rfl
  | enable | disable =>
    refine h.keep (fun _ => rfl) (running_setEntry rfl) (fun _ => rfl) (fun _ => .inl) ?_
    dsimp only [setEvent]
    split_ifs
    · rfl
    · rfl
  | routingSet =>
    exact h.keep (fun _ => rfl) (running_setEntry rfl) (fun _ => rfl) (fun _ => .inl) rfl
  | bind | bindTo => exact h.setCpu rfl rfl
  | @claim pe _ _ _ _ hmap =>
    have hidle : StacksOk (bindTo s pe .idle) := h.setCpu rfl rfl
    exact hidle.keep (fixed_setMap hmap rfl) (fun _ => rfl) (fun _ => rfl) (fun _ => .inl) rfl
  | release hmap =>
    exact h.keep (fixed_setMap hmap rfl) (fun _ => rfl) (fun _ => rfl) (fun _ => .inl) rfl
  | complete hon hstk hmap => exact h.completed hon hstk hmap
  | @masked pe _ _ _ _ _ _ _ hmsk =>
    obtain ⟨-, -, rfl⟩ := hmsk
    have hpend : StacksOk (s.setCpu pe { s.cpus pe with pendingEnables := true }) :=
      h.setCpu rfl rfl
    exact hpend.keep (fun _ => rfl) (fun _ => rfl) (fun _ => rfl) (fun _ => .inl) rfl
  | interrupt hfind hon hdel hd =>
    have hall := (Bool.and_eq_true_iff.mp hdel).1
    rw [hfind] at hall
    exact h.dispatched hon hall hd
  | dispatch hon hd hfree => exact h.dispatched hon (h.preempts hfree) hd
  | mask | wakeup => exact h.setCpu rfl rfl
  | @unmask pe =>
    have hunm : StacksOk (s.setCpu pe
        { s.cpus pe with pendingEnables := false, peMasked := false }) := h.setCpu rfl rfl
    obtain ⟨enabled, hgic⟩ := sdeiPeUnmask_gic p s pe
    have hact : (sdeiPeUnmask p s pe).gic.active = s.gic.active := by rw [hgic]
    exact hunm.keep (fun _ => rfl) (fun _ => rfl) (fun _ => rfl) (fun _ => .inl) hact
  | cpuOff => exact h.cpuOff (isEmpty_iff.mp hok)
  | cpuOn hoff => exact h.cpuOn hoff

/-- The calls that a reset is made of bind and release, and start and stop no handler. -/
theorem Event.Resets.keep {s₀ : Dispatcher n} {event' : Event n} (hpart : event.Resets s₀ event')
    (hmove : Move p s event' s') :
    (∀ q, (s'.map? q).map fixed = (s.map? q).map fixed) ∧
      ∀ k, (s'.entries k).state.running = (s.entries k).state.running := by
  cases hpart with
  | privately | shared =>
    cases hmove with
    | refuse => exact ⟨fun _ => rfl, fun _ => rfl⟩
    | unregister hmap => exact ⟨fixed_setMap hmap rfl, running_setEntry rfl⟩
  | release =>
    cases hmove with
    | refuse => exact ⟨fun _ => rfl, fun _ => rfl⟩
    | release hmap => exact ⟨fixed_setMap hmap rfl, fun _ => rfl⟩

theorem StacksOk.step (h : StacksOk s) (hok : offOutsideHandlers s event = true)
    (hstep : s.step p event = some s') : StacksOk s' := by
  refine step_moves hstep (h.move hok) h (fun event' t t' hpart ht => ht.move ?_) id
  cases hpart <;> rfl

theorem Dispatcher.Started.stacksOk (h : s.Started) : StacksOk s := by
  have hrefs : ∀ pe, s.refs pe = [] := by
    intro pe
    rw [refs, h.stack, map_nil]
  refine ⟨fun r m hmap => (h.maps r m hmap).priv, ?_, fun pe _ => hrefs pe, fun pe => ?_,
    fun pe => ?_, fun pe => ?_, ?_, fun k => ?_⟩
  · simp [hrefs]
  · rw [h.active, hrefs, map_nil]
  · rw [hrefs]
    exact .inl rfl
  · rw [hrefs]
    exact nodup_nil
  · simp [hrefs]
  · simp [hrefs, h.entries, SdeiEntry.zero]

/-- A PE registers and enables an event, and unmasks. -/
def setUp (pe : Fin 2) (evNum : Int) : List (Event 2) :=
  [.register pe evNum 0x1000 0 0 0 true false, .enable pe evNum, .unmask pe]

/-- PE 1 is turned on, off and on, and a critical event preempts a normal one there. -/
def nestedRun : List (Event 2) :=
  [.cpuOn 1, .cpuOff 1, .cpuOn 1] ++ setUp 1 8 ++ setUp 1 9 ++
    [.interrupt 1 23 sampleContext, .interrupt 1 24 sampleContext]

/-- **The stacks and the running entries agree** in every run in which PEs are turned off
only when they handle no event: a stack has at most two entries, a normal one below a
critical one, the entry of a private event is running exactly when the event is on the
stack of its PE, and that of a shared event when it is on the stack of one PE. -/
theorem stacks_are_running {table : Bool → List EvMap} {g : Gic n} {events : List (Event n)}
    (hinit : sdeiInit p table g = some s) (hrun : run (step p) s events = some s')
    (hok : Along (step p) (fun s event => offOutsideHandlers s event = true) s events) :
    (∀ pe, (s'.cpus pe).stack.length ≤ maxEventNesting ∧ WellNested ((s'.refs pe).map s'.classOf)) ∧
    (∀ pe i, (s'.entries (some pe, i)).state.running = true ↔ ⟨false, i⟩ ∈ s'.refs pe) ∧
    (∀ i, (s'.entries (none, i)).state.running = true ↔ ∃! pe, ⟨true, i⟩ ∈ s'.refs pe) := by
  have h : StacksOk s' := run_invariant_along (fun _ _ _ => StacksOk.step)
    (sdeiInit_started hinit).stacksOk hok hrun
  refine ⟨fun pe => ⟨?_, h.nested pe⟩, fun pe i => ?_, fun i => ?_⟩
  · have hle := (h.nested pe).length_le
    rwa [length_map, refs, length_map] at hle
  · rw [h.running]
    constructor
    · intro hex
      obtain ⟨q, ⟨shared, j⟩, hr, heq⟩ := hex
      cases shared with
      | false =>
        cases heq
        exact hr
      | true => cases heq
    · exact fun hr => ⟨pe, ⟨false, i⟩, hr, rfl⟩
  · rw [h.running]
    constructor
    · intro hex
      obtain ⟨q, ⟨shared, j⟩, hr, heq⟩ := hex
      cases shared with
      | false => cases heq
      | true =>
        cases heq
        exact ⟨q, hr, fun q' hr' => h.owner q' q _ _ hr' hr rfl⟩
    · intro hex
      obtain ⟨pe, hr, -⟩ := hex
      exact ⟨pe, ⟨true, i⟩, hr, rfl⟩

/-- A critical event preempts a normal one on a PE that was off before. -/
theorem stacks_are_running_nested :
    ∃ s', run (step (samplePlatform true)) (sampleStart true) nestedRun = some s' ∧
      (s'.cpus 1).stack.length = 2 ∧ (s'.cpus 1).stack.length ≤ maxEventNesting := by
  have hok : Along (step (samplePlatform true))
      (fun s event => offOutsideHandlers s event = true) (sampleStart true) nestedRun := by
    decide +kernel
  refine exists_some_imp (by decide +kernel)
    fun s' hrun hend => ⟨hend, ?_⟩
  exact ((stacks_are_running (sampleStart_init true) hrun hok).1 1).1

/-- PE 1 is turned off in the handler of an event, and on again. -/
def offInHandler : List (Event 2) :=
  [.cpuOn 1] ++ setUp 1 8 ++ [.interrupt 1 23 sampleContext, .cpuOff 1, .cpuOn 1]

/-- **An event is left on the stack** of a PE that was turned off in its handler: when the
PE comes back, the entry of the event is not running, and without assertions the next
events go on top of it, past the end of the stack. -/
theorem event_left_on_stack :
    (∃ s', run (step (samplePlatform true)) (sampleStart true) offInHandler = some s' ∧
      ⟨false, 1⟩ ∈ s'.refs 1 ∧ (s'.entries (some 1, 1)).state.running = false) ∧
    ∃ s', run (step (samplePlatform false)) (sampleStart false)
        (offInHandler ++ setUp 1 804 ++ setUp 1 9 ++
          [.interrupt 1 40 sampleContext, .interrupt 1 24 sampleContext]) = some s' ∧
      maxEventNesting < (s'.cpus 1).stack.length := by
  constructor
  · decide +kernel
  · decide +kernel

end TrustedFirmware.Sdei
