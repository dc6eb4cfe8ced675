import TrustedFirmware.Sdei.System

/-!
# What each call of the dispatcher can do

A call either leaves the state as it is or changes it in one way, for a mapping that it
has found. The results about runs rest on these moves and not on the definitions of the
calls.
-/

namespace TrustedFirmware.Sdei

open Option Dispatcher

variable {n : Nat} {p : Platform n} {s s' : Dispatcher n} {pe : Fin n} {r : MapRef} {m : EvMap}
  {evNum ret : Int} {shared : Bool}

/-! ### Reading and writing -/

theorem cpus_setCpu {α : Type} (f : CpuState → α) {c : CpuState} (h : f c = f (s.cpus pe))
    (q : Fin n) : f ((s.setCpu pe c).cpus q) = f (s.cpus q) := by
  obtain rfl | hq := eq_or_ne q pe
  · simpa [setCpu] using h
  · simp [setCpu, hq]

theorem findMap_eq_some {q : EvMap → Bool} (h : s.findMap shared q = some (r, m)) :
    r.shared = shared ∧ s.map? r = some m ∧ q m = true := by
  obtain ⟨i, hi, hm⟩ := bind_eq_some_iff.mp h
  obtain ⟨m', hm', heq⟩ := map_eq_some_iff.mp hm
  cases heq
  obtain ⟨hlt, hq, -⟩ := List.findIdx?_eq_some_iff_getElem.mp hi
  obtain ⟨_, hget⟩ := List.getElem?_eq_some_iff.mp hm'
  exact ⟨rfl, hm', hget ▸ hq⟩

theorem findEventMap_eq_some (h : s.findEventMap evNum = some (r, m)) :
    s.map? r = some m ∧ m.evNum = evNum := by
  rcases or_eq_some_iff.mp h with hfd | ⟨-, hfd⟩
  all_goals
    obtain ⟨-, hmap, hnum⟩ := findMap_eq_some hfd
    exact ⟨hmap, of_decide_eq_true hnum⟩

variable {intr : Nat} {flags mpidr : U64} {active : Nat → Bool} {inv : Dispatcher n → Prop}
  {ctx : NsContext}

theorem findEventMapByIntr_eq_some (h : s.findEventMapByIntr intr shared = some (r, m)) :
    r.shared = shared ∧ s.map? r = some m ∧ m.intr = intr := by
  obtain ⟨hshared, hmap, hintr⟩ := findMap_eq_some h
  exact ⟨hshared, hmap, of_decide_eq_true hintr⟩

theorem map?_setMap {m' : EvMap} (hmap : s.map? r = some m) (q : MapRef) :
    (s.setMap r m').map? q = if q = r then some m' else s.map? q := by
  obtain ⟨hlt, -⟩ := List.getElem?_eq_some_iff.mp hmap
  unfold map? setMap
  by_cases hshared : q.shared = r.shared
  · dsimp only
    rw [hshared, Function.update_self, List.getElem?_set]
    by_cases hidx : r.idx = q.idx
    · rw [if_pos hidx, if_pos hlt, if_pos (by cases q; cases r; simp_all)]
    · rw [if_neg hidx, if_neg fun heq => hidx (by rw [heq])]
  · dsimp only
    rw [Function.update_of_ne hshared, if_neg fun heq => hshared (by rw [heq])]

theorem map?_congr (h : s'.maps = s.maps) : s'.map? = s.map? := by
  funext r
  rw [map?, h]
  rfl

/-- A mapping is the one that was written, or another one as before. -/
theorem map?_of_setMap {m' mq : EvMap} {q : MapRef} (hmap : s.map? r = some m)
    (hmaps : s'.maps = (s.setMap r m').maps) (hq : s'.map? q = some mq) :
    (q = r ∧ mq = m') ∨ (q ≠ r ∧ s.map? q = some mq) := by
  rw [map?_congr hmaps, map?_setMap hmap] at hq
  split_ifs at hq with hqr
  · exact .inl ⟨hqr, (some.inj hq).symm⟩
  · exact .inr ⟨hqr, hq⟩

theorem entries_setEntry {k : Option (Fin n) × Nat} {se : SdeiEntry} (k' : Option (Fin n) × Nat) :
    (s.setEntry k se).entries k' = if k' = k then se else s.entries k' :=
  Function.update_apply ..

/-! ### Moves -/

/-- The event is pushed and its handler set up. -/
def Dispatched (p : Platform n) (pe : Fin n) (r : MapRef) (m : EvMap) (origin : Origin)
    (s s' : Dispatcher n) : Prop :=
  s.map? r = some m ∧ (s.entries (entryKey pe r m)).state = ⟨false, true, true⟩ ∧
  (p.assertions = true → (s.cpus pe).stack.length < maxEventNesting) ∧
  ∃ ctx ns, s' =
    { (s.setEntry (entryKey pe r m) { s.entries (entryKey pe r m) with
        state := ⟨true, true, true⟩ }).setCpu pe { s.cpus pe with
          stack := ⟨r, ctx, origin⟩ :: (s.cpus pe).stack, ns := ns } with
      gic := { s.gic with
        active := Function.update s.gic.active pe (mapToClass m :: s.gic.active pe) } }

/-- A trigger while the PE is masked disables the interrupt, to be enabled later. -/
def MaskedTrigger (pe : Fin n) (r : MapRef) (m : EvMap) (s s' : Dispatcher n) : Prop :=
  s.map? r = some m ∧
  (isEventPrivate m = true ∨ (s.entries (entryKey pe r m)).regFlags = sdeiRegfRmPe) ∧
  s' = { s.setCpu pe { s.cpus pe with pendingEnables := true } with
    gic := s.gic.setEnabled pe m.intr false }

/-- The event is enabled or disabled, and its interrupt with it. -/
def Dispatcher.setEvent (s : Dispatcher n) (pe : Fin n) (r : MapRef) (m : EvMap) (on : Bool) :
    Dispatcher n :=
  { s.setEntry (entryKey pe r m) { s.entries (entryKey pe r m) with
      state := { (s.entries (entryKey pe r m)).state with enabled := on } } with
    gic :=
      if isMapBound m ∧ (s.entries (entryKey pe r m)).state.enabled ≠ on then
        s.gic.setEnabled pe m.intr on
      else s.gic }

/-- **What an event does** to the state. The resets are not here: they unregister and release. -/
inductive Move (p : Platform n) (s : Dispatcher n) : Event n → Dispatcher n → Prop
  | refuse {event : Event n} : Move p s event s
  | register {pe : Fin n} {evNum : Int} {ep arg flags mpidr f : U64} {epValid active : Bool}
      {r : MapRef} {m : EvMap} (hmap : s.map? r = some m)
      (hst : (s.entries (entryKey pe r m)).state = ⟨false, false, false⟩)
      (hbound : isMapDynamic m = true → isMapBound m = true)
      (hns : isMapBound m = true → s.gic.intrType (bank pe m.intr) m.intr = .ns)
      (hflags : f = sdeiRegfRmAny ∨ f = sdeiRegfRmPe) :
      Move p s (.register pe evNum ep arg flags mpidr epValid active)
        { (s.setEntry (entryKey pe r m) ⟨ep, arg, mpidr &&& mpidrAffinityMask, f,
          ⟨false, false, true⟩⟩).setMap r { m with regCount := m.regCount + 1 } with
        gic := if isMapBound m then registerInterrupt pe s.gic m f mpidr else s.gic }
  | unregister {pe : Fin n} {evNum : Int} {r : MapRef} {m : EvMap} (hmap : s.map? r = some m)
      (hnum : m.evNum = evNum) (hreg : (s.entries (entryKey pe r m)).state.registered = true) :
      Move p s (.unregister pe evNum)
        { (s.setEntry (entryKey pe r m) (clearEventEntries { s.entries (entryKey pe r m) with
          state := ⟨(s.entries (entryKey pe r m)).state.running, false, false⟩ })).setMap r
            { m with regCount := m.regCount - 1 } with
        gic := if isMapBound m then
            (s.gic.setEnabled pe m.intr false).setType pe m.intr .ns else s.gic }
  | enable {pe : Fin n} {evNum : Int} {r : MapRef} {m : EvMap} (hmap : s.map? r = some m)
      (hreg : (s.entries (entryKey pe r m)).state.registered = true) :
      Move p s (.enable pe evNum) (s.setEvent pe r m true)
  | disable {pe : Fin n} {evNum : Int} {r : MapRef} {m : EvMap} (hmap : s.map? r = some m)
      (hreg : (s.entries (entryKey pe r m)).state.registered = true) :
      Move p s (.disable pe evNum) (s.setEvent pe r m false)
  | routingSet {pe : Fin n} {evNum : Int} {flags mpidr : U64} {r : MapRef} {m : EvMap}
      (hmap : s.map? r = some m) (hshared : isEventPrivate m = false)
      (hbound : isMapBound m = true) (hfind : s.findEventMap evNum = some (r, m))
      (hflags : flags = sdeiRegfRmAny ∨ flags = sdeiRegfRmPe)
      (hst : (s.entries (entryKey pe r m)).state = ⟨false, false, true⟩) :
      Move p s (.routingSet pe evNum flags mpidr) { s.setEntry (entryKey pe r m)
          { s.entries (entryKey pe r m) with regFlags := flags } with
        gic := s.gic.setSpiRouting m.intr flags mpidr }
  | bind {pe : Fin n} {intr : Nat} (hsgi : platIcIsSgi intr = false) :
      Move p s (.bind pe intr) (bindTo s pe (.lookup intr 0))
  | bindTo {pe : Fin n} (pc : BindPc) : Move p s (.bindStep pe) (bindTo s pe pc)
  | claim {pe : Fin n} {intr i : Nat} {m : EvMap} (hpc : (s.cpus pe).binding = .claim intr i)
      (hmap : s.map? ⟨platIcIsSpi intr, i⟩ = some m) (hfree : isMapBound m = false) :
      Move p s (.bindStep pe) ((Sdei.bindTo s pe .idle).setMap ⟨platIcIsSpi intr, i⟩
        (setMapBound { m with intr := intr } true))
  | release {pe : Fin n} {evNum : Int} {active : Nat → Bool} {r : MapRef} {m : EvMap}
      (hmap : s.map? r = some m) (hfind : s.findEventMap evNum = some (r, m))
      (hret : (sdeiInterruptRelease s pe evNum active).2 = 0) (hdyn : isMapDynamic m = true)
      (hcount : m.regCount = 0)
      (hst : (s.entries (entryKey pe r m)).state = ⟨false, false, false⟩) :
      Move p s (.release pe evNum active)
        (s.setMap r (setMapBound { m with intr := sdeiDynIrq } false))
  | complete {pe : Fin n} {resume : Bool} {pc : U64} {pcValid : Bool} {disp : DispatchContext}
      {stack : List DispatchContext} {m : EvMap} {ns : NsContext} {elr spsr : U64}
      (hon : (s.cpus pe).online = true)
      (hstack : (s.cpus pe).stack = disp :: stack) (hmap : s.map? disp.map = some m) :
      Move p s (.complete pe resume pc pcValid)
        { (s.setEntry (entryKey pe disp.map m) { s.entries (entryKey pe disp.map m) with
          state := { (s.entries (entryKey pe disp.map m)).state with running := false } }).setCpu pe
            { s.cpus pe with stack := stack, ns := ns, clientElr := elr, clientSpsr := spsr } with
        gic := { s.gic with active := Function.update s.gic.active pe (s.gic.active pe).tail } }
  | masked {pe : Fin n} {intr : Nat} {ctx : NsContext} {r : MapRef} {m : EvMap} {s' : Dispatcher n}
      (hfind : s.findEventMapByIntr intr (platIcIsSpi intr) = some (r, m))
      (hdelivers : delivers p s pe intr = true) (hmasked : MaskedTrigger pe r m s s') :
      Move p s (.interrupt pe intr ctx) s'
  | interrupt {pe : Fin n} {intr : Nat} {ctx : NsContext} {r : MapRef} {m : EvMap}
      {s' : Dispatcher n}
      (hfind : s.findEventMapByIntr intr (platIcIsSpi intr) = some (r, m))
      (hon : (s.cpus pe).online = true) (hdelivers : delivers p s pe intr = true)
      (hd : Dispatched p pe r m .interrupt s s') : Move p s (.interrupt pe intr ctx) s'
  | dispatch {pe : Fin n} {evNum : Int} {ctx : NsContext} {r : MapRef} {m : EvMap}
      {s' : Dispatcher n}
      (hon : (s.cpus pe).online = true) (hd : Dispatched p pe r m .explicit s s')
      (hfree : ∀ disp m', (s.cpus pe).stack.head? = some disp → s.map? disp.map = some m' →
        isEventCritical m' = false ∧ isEventNormal m = false) : Move p s (.dispatch pe evNum ctx) s'
  | mask {pe : Fin n} : Move p s (.mask pe) (sdeiPeMask s pe).1
  | wakeup {pe : Fin n} : Move p s (.wakeup pe) (sdeiPeMask s pe).1
  | unmask {pe : Fin n} : Move p s (.unmask pe) (sdeiPeUnmask p s pe)
  | cpuOff {pe : Fin n} : Move p s (.cpuOff pe) (Sdei.cpuOff s pe)
  | cpuOn {pe : Fin n} (hoff : (s.cpus pe).online = false) : Move p s (.cpuOn pe) (Sdei.cpuOn s pe)

variable {event : Event n}

theorem refused {code : Int} (h : some (s, code) = some (s', ret)) : Move p s event s' := by
  cases h
  exact .refuse

/-! ### Registration -/

theorem flags_of_validateFlags (h : ¬ validateFlags p flags mpidr ≠ 0) :
    flags = sdeiRegfRmAny ∨ flags = sdeiRegfRmPe := by
  by_contra! hne
  rw [validateFlags, if_neg hne.2, if_neg hne.1] at h
  exact h (by decide)

/-- **Registering**: the event was not registered. -/
theorem sdeiEventRegister_move {ep arg : U64} {epValid active : Bool}
    (h : sdeiEventRegister p s pe evNum ep arg flags mpidr epValid active = some (s', ret)) :
    Move p s (.register pe evNum ep arg flags mpidr epValid active) s' := by
  unfold sdeiEventRegister at h
  split at h
  · exact refused h
  dsimp only at h
  split at h
  · exact refused h
  rename_i hflags
  split at h
  · exact refused h
  rename_i r m hfind
  split at h
  · exact refused h
  rename_i st htr
  obtain ⟨hst, rfl⟩ := changes htr
  split at h
  · exact refused h
  rename_i hdyn
  obtain ⟨-, h⟩ := ite_none_left_eq_some.mp h
  split at h
  · exact refused h
  rename_i hown
  cases h
  refine .register (findEventMap_eq_some hfind).1 hst (fun hd => ?_) (fun hb => ?_) ?_
  · exact not_not.mp fun hb => hdyn ⟨hd, hb⟩
  · exact not_not.mp fun hne => hown ⟨hb, .inr hne⟩
  · split_ifs
    · exact .inr rfl
    · exact flags_of_validateFlags hflags

/-- **Unregistering**: the event was registered. -/
theorem sdeiEventUnregister_move (h : sdeiEventUnregister p s pe evNum = some (s', ret)) :
    Move p s (.unregister pe evNum) s' := by
  unfold sdeiEventUnregister at h
  split at h
  · exact refused h
  rename_i r m hfind
  dsimp only at h
  split at h
  · exact refused h
  rename_i st htr
  obtain ⟨hreg, rfl⟩ := changes htr
  obtain ⟨-, h⟩ := ite_none_left_eq_some.mp h
  obtain ⟨-, h⟩ := ite_none_left_eq_some.mp h
  cases h
  obtain ⟨hmap, hnum⟩ := findEventMap_eq_some hfind
  exact .unregister hmap hnum hreg

/-- **Enabling and disabling**: the event was registered. -/
theorem sdeiEventSet_move (on : Bool)
    (h : sdeiEventSet s pe (if on then .enable else .disable) on evNum = some (s', ret)) :
    Move p s (if on then .enable pe evNum else .disable pe evNum) s' := by
  unfold sdeiEventSet at h
  split at h
  · exact refused h
  rename_i r m hfind
  dsimp only at h
  split at h
  · exact refused h
  rename_i st htr
  obtain ⟨hreg, rfl⟩ : (s.entries (entryKey pe r m)).state.registered = true ∧
      st = { (s.entries (entryKey pe r m)).state with enabled := on } := by
    cases on with
    | true | false => exact changes htr
  simp only [and_true] at h
  cases h
  cases on with
  | true => exact .enable (findEventMap_eq_some hfind).1 hreg
  | false => exact .disable (findEventMap_eq_some hfind).1 hreg

/-- **Routing**: the event is shared, bound, registered and disabled. -/
theorem sdeiEventRoutingSet_move
    (h : sdeiEventRoutingSet p s pe evNum flags mpidr = some (s', ret)) :
    Move p s (.routingSet pe evNum flags mpidr) s' := by
  unfold sdeiEventRoutingSet at h
  dsimp only at h
  split at h
  · exact refused h
  rename_i hflags
  split at h
  · exact refused h
  rename_i r m hfind
  split at h
  · exact refused h
  rename_i hpriv
  split at h
  · exact refused h
  rename_i hbound
  split at h
  · exact refused h
  rename_i st htr
  obtain ⟨hst, rfl⟩ := changes htr
  cases h
  exact .routingSet (findEventMap_eq_some hfind).1 (Bool.eq_false_iff.mpr hpriv)
    (not_not.mp hbound) hfind (flags_of_validateFlags hflags) hst

/-! ### Masking -/

/-- The interrupts of the mappings of a list that have a property are enabled, in order. -/
def enableAll (pe : Fin n) (hit : Nat → EvMap → Bool) (g : Gic n) : List EvMap → Nat → Gic n
  | [], _ => g
  | m :: ms, i => enableAll pe hit (if hit i m then g.setEnabled pe m.intr true else g) ms (i + 1)

/-- The private event is to be enabled when the PE is unmasked. -/
def privateHit (s : Dispatcher n) (pe : Fin n) (i : Nat) (m : EvMap) : Bool :=
  isMapBound m ∧ (s.entries (entryKey pe ⟨false, i⟩ m)).state.enabled

/-- And so is the shared one. -/
def sharedHit (p : Platform n) (s : Dispatcher n) (pe : Fin n) (i : Nat) (m : EvMap) : Bool :=
  isMapBound m ∧ (s.entries (entryKey pe ⟨true, i⟩ m)).state.enabled ∧
    (s.entries (entryKey pe ⟨true, i⟩ m)).regFlags = sdeiRegfRmPe ∧
    (s.entries (entryKey pe ⟨true, i⟩ m)).affinity = p.mpidr pe

theorem enablePrivate_eq (g : Gic n) (ms : List EvMap) (i : Nat) :
    enablePrivate s pe g ms i = enableAll pe (privateHit s pe) g ms i := by
  induction ms generalizing g i with
  | nil => rfl
  | cons m ms ih => simp only [enablePrivate, enableAll, ih, privateHit, decide_eq_true_eq]

theorem enableShared_eq (g : Gic n) (ms : List EvMap) (i : Nat) :
    enableShared p s pe g ms i = enableAll pe (sharedHit p s pe) g ms i := by
  induction ms generalizing g i with
  | nil => rfl
  | cons m ms ih => simp only [enableShared, enableAll, ih, sharedHit, decide_eq_true_eq]

variable {hit : Nat → EvMap → Bool} {ms : List EvMap}

theorem enableAll_only (pe : Fin n) (hit : Nat → EvMap → Bool) (g : Gic n) (ms : List EvMap)
    (i : Nat) :
    ∃ enabled, enableAll pe hit g ms i = { g with enabled := enabled } := by
  induction ms generalizing g i with
  | nil => exact ⟨g.enabled, rfl⟩
  | cons m ms ih =>
    obtain ⟨enabled, heq⟩ := ih (if hit i m then g.setEnabled pe m.intr true else g) (i + 1)
    refine ⟨enabled, heq.trans ?_⟩
    split_ifs
    · rfl
    · rfl

theorem enableAll_mono {g : Gic n} {i : Nat} {o : Option (Fin n)}
    (h : g.enabled o intr = true) : (enableAll pe hit g ms i).enabled o intr = true := by
  induction ms generalizing g i with
  | nil => exact h
  | cons m ms ih =>
    refine ih ?_
    split_ifs
    · rw [Gic.setEnabled]
      dsimp only
      split_ifs
      · rfl
      · exact h
    · exact h

theorem enableAll_hit {g : Gic n} {i j : Nat} (hm : ms[j]? = some m) (hhit : hit (i + j) m = true) :
    (enableAll pe hit g ms i).enabled (bank pe m.intr) m.intr = true := by
  induction ms generalizing g i j with
  | nil => simp at hm
  | cons m' ms ih =>
    rw [enableAll]
    cases j with
    | zero =>
      obtain rfl : m' = m := by simpa using hm
      rw [if_pos (by simpa using hhit)]
      exact enableAll_mono (if_pos ⟨rfl, rfl⟩)
    | succ j =>
      refine ih (by simpa using hm) ?_
      rwa [add_right_comm i 1 j]

/-- Unmasking changes nothing in the interrupt controller but the enables. -/
theorem sdeiPeUnmask_gic (p : Platform n) (s : Dispatcher n) (pe : Fin n) :
    ∃ enabled, (sdeiPeUnmask p s pe).gic = { s.gic with enabled := enabled } := by
  unfold sdeiPeUnmask
  dsimp only
  split_ifs
  · obtain ⟨f, hf⟩ := enableAll_only pe (privateHit s pe) s.gic (s.maps false) 0
    obtain ⟨f', hf'⟩ := enableAll_only pe (sharedHit p s pe) { s.gic with enabled := f }
      (s.maps true) 0
    exact ⟨f', by rw [enableShared_eq, enablePrivate_eq, hf, hf']⟩
  · exact ⟨s.gic.enabled, rfl⟩

/-! ### Binding -/

/-- **Releasing**: the mapping was dynamic, bound and without registrations, and the PE
does not run the event. -/
theorem sdeiInterruptRelease_move :
    Move p s (.release pe evNum active) (sdeiInterruptRelease s pe evNum active).1 := by
  cases hc : sdeiInterruptRelease s pe evNum active with
  | mk =>
    have h := hc
    unfold sdeiInterruptRelease at h
    split at h
    · exact refused (congrArg some h)
    rename_i r m hfind
    split at h
    · exact refused (congrArg some h)
    rename_i hdyn
    split at h
    · exact refused (congrArg some h)
    rename_i hcount
    split at h
    · exact refused (congrArg some h)
    rename_i st htr
    split at h
    · split at h
      · exact refused (congrArg some h)
      · cases h
        exact .release (findEventMap_eq_some hfind).1 hfind (congrArg Prod.snd hc)
          (not_not.mp hdyn) (not_not.mp hcount) (changes htr).1
    · exact refused (congrArg some h)

/-- **A step of BIND** moves the PE on, or takes a mapping that is not bound. -/
theorem sdeiInterruptBindStep_move {out : Option Int}
    (h : sdeiInterruptBindStep p s pe = some (s', out)) : Move p s (.bindStep pe) s' := by
  unfold sdeiInterruptBindStep at h
  split at h
  case h_5 hpc =>
    split at h
    next => cases h
    next hmap =>
      split_ifs at h with hbound
      · cases h
        exact .bindTo _
      · cases h
        exact .claim hpc hmap (Bool.eq_false_iff.mpr hbound)
  all_goals repeat' split at h
  all_goals cases h
  all_goals exact .bindTo _

/-! ### Resets -/

/-- The calls that a reset is made of. -/
inductive Event.Resets (s : Dispatcher n) : Event n → Event n → Prop
  | privately {pe : Fin n} {evNum : Int} (hmem : evNum ∈ (s.maps false).map EvMap.evNum) :
      Resets s (.privateReset pe) (.unregister pe evNum)
  | shared {pe : Fin n} {evNum : Int} {active : Nat → Bool}
      (hmem : evNum ∈ (s.maps true).map EvMap.evNum) :
      Resets s (.sharedReset pe active) (.unregister pe evNum)
  | release {pe : Fin n} {evNum : Int} {active : Nat → Bool} :
      Resets s (.sharedReset pe active) (.release pe evNum active)

theorem unregisterAll_invariant {evNums : List Int}
    (hmove : ∀ evNum ∈ evNums, ∀ t t', inv t → Move p t (.unregister pe evNum) t' → inv t')
    (hs : inv s) (h : unregisterAll p pe s evNums = some (s', ret)) : inv s' := by
  induction evNums generalizing s ret with
  | nil =>
    cases h
    exact hs
  | cons evNum evNums ih =>
    rw [unregisterAll] at h
    split at h
    · cases h
    rename_i t code hfst
    obtain ⟨⟨t', ret'⟩, hrest, heq⟩ := map_eq_some_iff.mp h
    cases heq
    exact ih (fun num hnum => hmove num (List.mem_cons_of_mem _ hnum))
      (hmove evNum List.mem_cons_self s t hs (sdeiEventUnregister_move hfst)) hrest

theorem releaseAll_invariant
    (hmove : ∀ evNum t t', inv t → Move p t (.release pe evNum active) t' → inv t')
    {refs : List MapRef} (hs : inv s) : inv (releaseAll pe active s refs).1 := by
  induction refs generalizing s with
  | nil => exact hs
  | cons r refs ih =>
    rw [releaseAll]
    split
    · exact ih hs
    · split
      · exact ih (hmove _ s _ hs sdeiInterruptRelease_move)
      · exact ih hs

theorem sdeiSharedReset_invariant
    (hmove : ∀ event' t t', (Event.sharedReset pe active).Resets s event' → inv t →
      Move p t event' t' → inv t') (hs : inv s)
    (h : sdeiSharedReset p s pe active = some (s', ret)) : inv s' := by
  unfold sdeiSharedReset at h
  split at h
  · cases h
  rename_i t code hall
  have ht : inv t :=
    unregisterAll_invariant (fun _ hmem t t' => hmove _ t t' (.shared hmem)) hs hall
  split at h
  · cases h
    exact ht
  · have hs' : (releaseAll pe active t _).1 = s' := congrArg Prod.fst (some.inj h)
    rw [← hs']
    exact releaseAll_invariant (fun _ t t' => hmove _ t t' .release) ht

/-! ### Dispatching -/

theorem dispatched_of_setup {origin : Origin} {st : EvState} (hmap : s.map? r = some m)
    (htr : canSdeiStateTrans (s.entries (entryKey pe r m)).state .dispatch = some st)
    (h : setupNsDispatch p (s.setEntry (entryKey pe r m)
      { s.entries (entryKey pe r m) with state := st }) pe r m (s.entries (entryKey pe r m)) ctx
        origin = some s') : Dispatched p pe r m origin s s' := by
  obtain ⟨hst, rfl⟩ := changes htr
  unfold setupNsDispatch at h
  dsimp only [setEntry] at h
  split at h
  next hfull => cases h
  next hfull =>
    refine ⟨hmap, hst, fun ha => ?_, ctx, _, (some.inj h).symm⟩
    exact not_le.mp fun hle => hfull ⟨ha, hle⟩

/-- **An interrupt** is ignored, is put off while the PE is masked, or is dispatched. -/
theorem sdeiIntrHandler_move (hon : (s.cpus pe).online = true)
    (hdelivers : delivers p s pe intr = true) (h : sdeiIntrHandler p s pe intr ctx = some s') :
    Move p s (.interrupt pe intr ctx) s' := by
  unfold sdeiIntrHandler at h
  split at h
  · cases h
  rename_i r m hfind
  obtain ⟨-, hmap, -⟩ := findEventMapByIntr_eq_some hfind
  dsimp only at h
  split at h
  · cases h
  split at h
  · unfold handleMaskedTrigger at h
    split at h
    · cases h
      exact .refuse
    split at h
    · cases h
    split at h
    · rename_i hdis
      exact .masked hfind hdelivers ⟨hmap, hdis, (some.inj h).symm⟩
    split at h
    · cases h
    · cases h
      exact .refuse
  split at h
  · cases h
  split at h
  · cases h
    exact .refuse
  rename_i st htr
  obtain ⟨-, h⟩ := ite_none_left_eq_some.mp h
  exact .interrupt hfind hon hdelivers (dispatched_of_setup hmap htr h)

/-- **An explicit dispatch** is refused, or there is no critical event on the stack, and
nothing at all if the event is a normal one. -/
theorem sdeiDispatchEvent_move (hon : (s.cpus pe).online = true)
    (h : sdeiDispatchEvent p s pe evNum ctx = some (s', ret)) :
    Move p s (.dispatch pe evNum ctx) s' := by
  unfold sdeiDispatchEvent at h
  split at h
  · exact refused h
  split at h
  · exact refused h
  rename_i r m hfind
  split at h
  · exact refused h
  dsimp only at h
  split at h
  · exact refused h
  rename_i hfree
  split at h
  · exact refused h
  rename_i st htr
  obtain ⟨t, hset, heq⟩ := map_eq_some_iff.mp h
  cases heq
  refine .dispatch hon (dispatched_of_setup (findEventMap_eq_some hfind).1 htr hset)
    fun disp m' hhead hmap' => ?_
  simp only [hhead, bind_some, hmap', any_some, not_or, Bool.not_eq_true, not_and] at hfree
  refine ⟨hfree.1, hfree.2 fun hnil => ?_⟩
  rw [hnil] at hhead
  cases hhead

/-- **Completing**: the event on top of the stack is not running any more. -/
theorem sdeiEventComplete_move {resume : Bool} {pc : U64} {pcValid : Bool}
    (hon : (s.cpus pe).online = true)
    (h : sdeiEventComplete p s pe resume pc pcValid = some (s', ret)) :
    Move p s (.complete pe resume pc pcValid) s' := by
  unfold sdeiEventComplete at h
  dsimp only at h
  split at h
  · exact refused h
  rename_i disp stack hstack
  split at h
  · exact refused h
  split at h
  · cases h
  rename_i m hmap
  split at h
  · exact refused h
  rename_i st htr
  cases resume with
  | true | false =>
    obtain ⟨-, rfl⟩ := changes htr
    split at h
    · cases h
    cases h
    exact .complete hon hstack hmap

/-- **A PE that comes back** finds its private entries cleared. -/
theorem cpuOn_entries (k : Option (Fin n) × Nat) : (cpuOn s pe).entries k =
      if k.1 = some pe ∧ k.2 < (s.maps false).length then SdeiEntry.zero else s.entries k :=
  rfl

/-- **A step** is a move, or the moves of a reset. -/
theorem step_moves {q : Dispatcher n → Prop} {c : Prop} (hstep : s.step p event = some s')
    (hmove : Move p s event s' → c) (hs : q s)
    (hpart : ∀ event' t t', event.Resets s event' → q t → Move p t event' t' → q t')
    (hend : q s' → c) : c := by
  obtain ⟨hpos, hexec⟩ := step_eq_some hstep
  cases event with
  | register =>
    obtain ⟨ret, hc⟩ := exists_ret hexec
    exact hmove (sdeiEventRegister_move hc)
  | enable =>
    obtain ⟨ret, hc⟩ := exists_ret hexec
    exact hmove (sdeiEventSet_move true hc)
  | disable =>
    obtain ⟨ret, hc⟩ := exists_ret hexec
    exact hmove (sdeiEventSet_move false hc)
  | unregister =>
    obtain ⟨ret, hc⟩ := exists_ret hexec
    exact hmove (sdeiEventUnregister_move hc)
  | routingSet =>
    obtain ⟨ret, hc⟩ := exists_ret hexec
    exact hmove (sdeiEventRoutingSet_move hc)
  | bind =>
    simp only [Event.exec, sdeiInterruptBind, some.injEq] at hexec
    split_ifs at hexec with hsgi
    · exact hmove (hexec ▸ .refuse)
    · exact hmove (hexec ▸ .bind (Bool.eq_false_iff.mpr hsgi))
  | bindStep =>
    obtain ⟨⟨t, out⟩, hc, rfl⟩ := map_eq_some_iff.mp hexec
    exact hmove (sdeiInterruptBindStep_move hc)
  | release =>
    cases hexec
    exact hmove sdeiInterruptRelease_move
  | privateReset =>
    obtain ⟨ret, hc⟩ := exists_ret hexec
    exact hend (unregisterAll_invariant (fun _ hmem t t' => hpart _ t t' (.privately hmem)) hs hc)
  | sharedReset =>
    obtain ⟨ret, hc⟩ := exists_ret hexec
    exact hend (sdeiSharedReset_invariant hpart hs hc)
  | complete =>
    obtain ⟨ret, hc⟩ := exists_ret hexec
    exact hmove (sdeiEventComplete_move (online_of_ready hpos) hc)
  | interrupt =>
    obtain ⟨hrdy, hdelivers⟩ := of_decide_eq_true hpos
    exact hmove (sdeiIntrHandler_move (online_of_ready hrdy) hdelivers hexec)
  | dispatch =>
    obtain ⟨ret, hc⟩ := exists_ret hexec
    exact hmove (sdeiDispatchEvent_move (online_of_ready hpos) hc)
  | mask =>
    cases hexec
    exact hmove .mask
  | wakeup =>
    cases hexec
    exact hmove .wakeup
  | unmask =>
    cases hexec
    exact hmove .unmask
  | cpuOff =>
    cases hexec
    exact hmove .cpuOff
  | cpuOn =>
    cases hexec
    exact hmove (.cpuOn (by simpa [Event.possible] using hpos))

end TrustedFirmware.Sdei
