import TrustedFirmware.Sdei.Registration

/-!
# Releasing interrupts and running handlers

An event can be unregistered by its handler, and from then on only the entry of the PE
that handles it shows that it is running. Another PE can then release the interrupt of a
private event, and the first one panics when its handler completes
(`released_while_running`). If no PE unregisters a private dynamic event that it is
handling, then in every run a dynamic event that is running is bound, and no completion
panics (`running_is_bound`).
-/

namespace TrustedFirmware.Sdei

open Lib List Function Dispatcher

variable {n : Nat} {p : Platform n} {s s' : Dispatcher n} {pe : Fin n} {r : MapRef} {m m' : EvMap}
  {evNum : Int} {event : Event n}

/-! ### The invariant -/

/-- The event on a stack has to be bound when it completes: it is dynamic, or it was
dispatched for an interrupt. -/
def needsBinding (disp : DispatchContext) (m : EvMap) : Bool :=
  isMapDynamic m ∨ (disp.origin = .interrupt ∧ m.evNum ≠ sdeiEvent0)

/-- The stacks and the counts are right, dynamic events that are registered are bound, the
private ones among them stay registered while they are handled, and what is handled is
bound. -/
structure HandlersOk (s : Dispatcher n) : Prop where
  nesting : StacksOk s
  counts : CountsOk s
  free : ∀ r m, s.map? r = some m → isMapBound m = false → m.evNum ≠ sdeiEvent0 →
    m.intr = sdeiDynIrq
  bound : ∀ r m o, s.map? r = some m → isMapDynamic m = true → o ∈ s.registrations r →
    isMapBound m = true
  registered : ∀ pe r m, r ∈ s.refs pe → s.map? r = some m → r.shared = false →
    isMapDynamic m = true → (s.entries (keyOf pe r)).state.registered = true
  handled : ∀ pe disp m, disp ∈ (s.cpus pe).stack → s.map? disp.map = some m →
    needsBinding disp m = true → isMapBound m = true

/-- Mappings may become bound, and nothing else changes in them but the count. -/
def MapsGrow (s s' : Dispatcher n) : Prop :=
  ∀ r m', s'.map? r = some m' → ∃ m, s.map? r = some m ∧ m'.evNum = m.evNum ∧
    isMapDynamic m' = isMapDynamic m ∧ (isMapBound m' = true ∨
      (isMapBound m' = isMapBound m ∧ m'.intr = m.intr))

theorem mapsGrow_of_eq (h : s'.maps = s.maps) : MapsGrow s s' := by
  intro r m hm
  rw [map?_congr h] at hm
  exact ⟨m, hm, rfl, rfl, .inr ⟨rfl, rfl⟩⟩

theorem mapsGrow_setMap (m' : EvMap) (hmap : s.map? r = some m)
    (hmaps : s'.maps = (s.setMap r m').maps)
    (hnum : m'.evNum = m.evNum) (hdyn : isMapDynamic m' = isMapDynamic m)
    (hgrow : isMapBound m' = true ∨ (isMapBound m' = isMapBound m ∧ m'.intr = m.intr)) :
    MapsGrow s s' := by
  intro q mq hq
  rcases map?_of_setMap hmap hmaps hq with ⟨rfl, rfl⟩ | ⟨-, hq⟩
  · exact ⟨m, hmap, hnum, hdyn, hgrow⟩
  · exact ⟨mq, hq, rfl, rfl, .inr ⟨rfl, rfl⟩⟩

theorem needsBinding_congr {disp : DispatchContext} (hnum : m'.evNum = m.evNum)
    (hdyn : isMapDynamic m' = isMapDynamic m) : needsBinding disp m' = needsBinding disp m := by
  rw [needsBinding, needsBinding, hnum, hdyn]

section

variable (h : HandlersOk s) (hnest : StacksOk s') (hcnts : CountsOk s') (hmaps : MapsGrow s s')
  (hstk : ∀ pe, (s'.cpus pe).stack = (s.cpus pe).stack)
include h hnest hcnts hmaps hstk

/-- **Calls that leave the stacks alone** and unbind nothing: new registrations are of
events that are bound, and the private dynamic events that are handled stay
registered. -/
theorem HandlersOk.keep
    (hnew : ∀ r m o, s'.map? r = some m → isMapDynamic m = true → o ∈ s'.registrations r →
      o ∈ s.registrations r ∨ isMapBound m = true)
    (hold : ∀ pe r m, r ∈ s.refs pe → s.map? r = some m → r.shared = false →
      isMapDynamic m = true → (s.entries (keyOf pe r)).state.registered = true →
      (s'.entries (keyOf pe r)).state.registered = true) : HandlersOk s' := by
  have hrefs : ∀ pe, s'.refs pe = s.refs pe := by
    intro pe
    rw [refs, hstk]
    rfl
  refine ⟨hnest, hcnts, fun r m' hmap' hfree hne => ?_, fun r m' o hmap' hdyn ho => ?_,
    fun pe r m' hr hmap' hpriv hdyn => ?_, fun pe disp m' hdisp hmap' hnd => ?_⟩
  · obtain ⟨m, hmap, hnum, -, hgrow | ⟨hbd, hintr⟩⟩ := hmaps r m' hmap'
    · cases hgrow.symm.trans hfree
    · rw [hintr]
      exact h.free r m hmap (hbd.symm.trans hfree) (hnum ▸ hne)
  · rcases hnew r m' o hmap' hdyn ho with ho | hbd
    · obtain ⟨m, hmap, -, hdyn', hgrow | ⟨hbd, -⟩⟩ := hmaps r m' hmap'
      · exact hgrow
      · rw [hbd]
        exact h.bound r m o hmap (hdyn' ▸ hdyn) ho
    · exact hbd
  · obtain ⟨m, hmap, -, hdyn', -⟩ := hmaps r m' hmap'
    rw [hrefs] at hr
    exact hold pe r m hr hmap hpriv (hdyn' ▸ hdyn)
      (h.registered pe r m hr hmap hpriv (hdyn' ▸ hdyn))
  · obtain ⟨m, hmap, hnum, hdyn', hgrow | ⟨hbd, -⟩⟩ := hmaps disp.map m' hmap'
    · exact hgrow
    · rw [hbd]
      rw [hstk] at hdisp
      rw [needsBinding_congr hnum hdyn'] at hnd
      exact h.handled pe disp m hdisp hmap hnd

/-- As `keep`, for calls that register and unregister nothing. -/
theorem HandlersOk.keep_registered
    (hreg : ∀ k, (s'.entries k).state.registered = (s.entries k).state.registered) :
    HandlersOk s' := by
  refine h.keep hnest hcnts hmaps hstk (fun r m o _ _ ho => ?_) fun pe r m _ _ _ _ hr => ?_
  · rw [registrations_congr hreg] at ho
    exact .inl ho
  · rw [hreg]
    exact hr

end

/-! ### What steps preserve -/

variable {se : SdeiEntry} {count : Int}

/-- **A registration** of an event that is bound if it is dynamic. -/
theorem HandlersOk.register (h : HandlersOk s) (hnest : StacksOk s') (hcnts : CountsOk s')
    (hmap : s.map? r = some m) (hbd : isMapDynamic m = true → isMapBound m = true)
    (hmaps : s'.maps = (s.setMap r { m with regCount := count }).maps)
    (hent : s'.entries = (s.setEntry (entryKey pe r m) se).entries) (hcpus : s'.cpus = s.cpus)
    (hse : se.state.registered = true) : HandlersOk s' := by
  rw [entryKey_eq_keyOf (h.nesting.priv r m hmap)] at hent
  refine h.keep hnest hcnts (mapsGrow_setMap _ hmap hmaps rfl rfl (Or.inr ⟨rfl, rfl⟩))
    (fun _ => by rw [hcpus]) (fun q mq o hq hdyn ho => ?_)
    fun q r' m' hr' hmap' hpriv hdyn hreg => ?_
  · rcases map?_of_setMap hmap hmaps hq with ⟨-, rfl⟩ | ⟨hqr, -⟩
    · exact .inr (hbd hdyn)
    · have hreg : s'.registrations q = s.registrations q :=
        (registrations_congr (fun k => by rw [hent]) q).trans (registrations_setEntry_of_ne hqr)
      exact .inl (hreg ▸ ho)
  · rw [hent, entries_setEntry]
    split_ifs with hk
    · exact hse
    · exact hreg

/-- No private dynamic event with this number is running on the PE. -/
def idleDynamic (s : Dispatcher n) (pe : Fin n) (evNum : Int) : Bool :=
  (range (s.maps false).length).all fun i =>
    (s.map? ⟨false, i⟩).all fun m =>
      m.evNum = evNum → isMapDynamic m → (s.entries (some pe, i)).state.running = false

theorem idleDynamic_iff : idleDynamic s pe evNum = true ↔ ∀ i m, s.map? ⟨false, i⟩ = some m →
    m.evNum = evNum → isMapDynamic m = true → (s.entries (some pe, i)).state.running = false := by
  unfold idleDynamic
  rw [all_eq_true]
  constructor
  · intro h i m hmap hnum hdyn
    have hi : i < (s.maps false).length := (List.getElem?_eq_some_iff.mp hmap).choose
    have hall := h i (mem_range.mpr hi)
    rw [hmap] at hall
    exact of_decide_eq_true hall hnum hdyn
  · intro h i _
    cases hmap : s.map? ⟨false, i⟩ with
    | none => rfl
    | some m => exact decide_eq_true (h i m hmap)

section

variable (h : HandlersOk s) (hnest : StacksOk s') (hcnts : CountsOk s')
include h hnest hcnts

/-- **An unregistration** of an event that the PE does not run, if it is private and dynamic. -/
theorem HandlersOk.unregister (hidle : idleDynamic s pe m.evNum = true) (hmap : s.map? r = some m)
    (hmaps : s'.maps = (s.setMap r { m with regCount := count }).maps)
    (hent : s'.entries = (s.setEntry (entryKey pe r m) se).entries) (hcpus : s'.cpus = s.cpus)
    (hse : se.state.registered = false) : HandlersOk s' := by
  rw [entryKey_eq_keyOf (h.nesting.priv r m hmap)] at hent
  have hoth : ∀ k, k ≠ keyOf pe r → s'.entries k = s.entries k := by
    intro k hk
    rw [hent, entries_setEntry, if_neg hk]
  have hself : (s'.entries (keyOf pe r)).state.registered = false := by
    rw [hent, entries_setEntry, if_pos rfl, hse]
  refine h.keep hnest hcnts (mapsGrow_setMap _ hmap hmaps rfl rfl (.inr ⟨rfl, rfl⟩))
    (fun _ => by rw [hcpus]) (fun q mq o _ _ ho => ?_)
    fun q r' m' hr' hmap' hpriv hdyn hreg => ?_
  · obtain ⟨hown, hreg⟩ := mem_registrations.mp ho
    refine .inl (mem_registrations.mpr ⟨hown, ?_⟩)
    by_cases hk : (o, q.idx) = keyOf pe r
    · rw [hk, hself] at hreg
      cases hreg
    · rw [hoth _ hk] at hreg
      exact hreg
  · rw [hoth]
    · exact hreg
    · -- An event of that key is on the stack of the PE, and running.
      intro hk
      have hrun := (h.nesting.running (keyOf q r')).mpr ⟨q, r', hr', rfl⟩
      obtain ⟨shared, i⟩ := r'
      obtain rfl : shared = false := hpriv
      have hr : r = ⟨false, i⟩ := (eq_of_mem_owners (mem_owners.mpr rfl) hk).symm
      subst hr
      obtain rfl : m = m' := Option.some.inj (hmap.symm.trans hmap')
      rw [hk, keyOf] at hrun
      cases hrun.symm.trans (idleDynamic_iff.mp hidle i m hmap rfl hdyn)

omit hnest hcnts in
/-- **A release** of an event that has no registration and that the PE does not run. -/
theorem HandlersOk.release (hmap : s.map? r = some m)
    (hdyn : isMapDynamic m = true) (hcnt : m.regCount = 0)
    (hst : (s.entries (entryKey pe r m)).state = ⟨false, false, false⟩)
    (hnest : StacksOk (s.setMap r (setMapBound { m with intr := sdeiDynIrq } false)))
    (hcnts : CountsOk (s.setMap r (setMapBound { m with intr := sdeiDynIrq } false))) :
    HandlersOk (s.setMap r (setMapBound { m with intr := sdeiDynIrq } false)) := by
  have hnone : ∀ o, o ∉ s.registrations r := by
    intro o ho
    have hcard := h.counts.count r m hmap
    rw [hcnt] at hcard
    rw [Finset.card_eq_zero.mp (Int.natCast_eq_zero.mp hcard.symm)] at ho
    exact absurd ho (Finset.notMem_empty o)
  -- The event is on no stack: it would be registered there, or its only entry be running.
  have hoff : ∀ q, r ∉ s.refs q := by
    intro q hr
    cases hsh : r.shared with
    | false =>
      exact hnone _ (mem_registrations.mpr
        ⟨keyOf_mem_owners q r, h.registered q r m hr hmap hsh hdyn⟩)
    | true =>
      have hrun := (h.nesting.running (keyOf q r)).mpr ⟨q, r, hr, rfl⟩
      have hkey : entryKey pe r m = keyOf q r := by
        rw [entryKey_eq_keyOf (h.nesting.priv r m hmap)]
        simp [keyOf, hsh]
      rw [← hkey, hst] at hrun
      cases hrun
  refine ⟨hnest, hcnts, fun q mq hq hfree hne => ?_, fun q mq o hq hdynq ho => ?_,
    fun pe' q mq hr hq hpriv hdynq => ?_, fun pe' disp mq hdisp hq hnd => ?_⟩
  · rcases map?_of_setMap hmap rfl hq with ⟨-, rfl⟩ | ⟨-, hq⟩
    · rfl
    · exact h.free q mq hq hfree hne
  · rcases map?_of_setMap hmap rfl hq with ⟨rfl, -⟩ | ⟨-, hq⟩
    · exact absurd ho (hnone o)
    · exact h.bound q mq o hq hdynq ho
  · rcases map?_of_setMap hmap rfl hq with ⟨rfl, -⟩ | ⟨-, hq⟩
    · exact absurd hr (hoff pe')
    · exact h.registered pe' q mq hr hq hpriv hdynq
  · rcases map?_of_setMap hmap rfl hq with ⟨hr, -⟩ | ⟨-, hq⟩
    · exact absurd (hr ▸ mem_map_of_mem hdisp) (hoff pe')
    · exact h.handled pe' disp mq hdisp hq hnd

/-- **A change of the stacks**: what comes onto one is registered and, if need be, bound. -/
theorem HandlersOk.restack (hmaps : s'.map? = s.map?)
    (hreg : ∀ k, (s'.entries k).state.registered = (s.entries k).state.registered)
    (hstk : ∀ q disp, disp ∈ (s'.cpus q).stack → disp ∈ (s.cpus q).stack ∨
      ((s.entries (keyOf q disp.map)).state.registered = true ∧
        ∀ m, s.map? disp.map = some m → needsBinding disp m = true → isMapBound m = true)) :
    HandlersOk s' := by
  refine ⟨hnest, hcnts, ?_, fun q mq o hq hdyn ho => ?_, fun q r mq hr hq hpriv hdyn => ?_,
    fun q disp mq hdisp hq hnd => ?_⟩
  · rw [hmaps]
    exact h.free
  · rw [hmaps] at hq
    rw [registrations_congr hreg] at ho
    exact h.bound q mq o hq hdyn ho
  · rw [hmaps] at hq
    rw [hreg]
    obtain ⟨disp, hdisp, rfl⟩ := mem_map.mp hr
    rcases hstk q disp hdisp with hdisp | ⟨hnew, -⟩
    · exact h.registered q disp.map mq (mem_map_of_mem hdisp) hq hpriv hdyn
    · exact hnew
  · rw [hmaps] at hq
    rcases hstk q disp hdisp with hdisp | ⟨-, hnew⟩
    · exact h.handled q disp mq hdisp hq hnd
    · exact hnew mq hq hnd

/-- **A dispatch** of an event that is registered; if it is for an interrupt, the mapping
has it. -/
theorem HandlersOk.dispatched
    {origin : Origin} (hd : Dispatched p pe r m origin s s')
    (hbd : origin = .interrupt → m.evNum ≠ sdeiEvent0 → isMapBound m = true) :
    HandlersOk s' := by
  obtain ⟨hmap, hst, -, ctx, ns, rfl⟩ := hd
  rw [entryKey_eq_keyOf (h.nesting.priv r m hmap)] at hst hnest hcnts ⊢
  refine h.restack hnest hcnts rfl (registered_setEntry (by rw [hst])) fun q disp hdisp => ?_
  obtain rfl | hq := eq_or_ne q pe
  · simp only [setCpu, update_self, mem_cons] at hdisp
    rcases hdisp with rfl | hdisp
    · refine .inr ⟨congrArg EvState.registered hst, fun m' hmap' hnd => ?_⟩
      cases hmap.symm.trans hmap'
      rcases of_decide_eq_true hnd with hdyn | ⟨hori, hne⟩
      · exact h.bound r m _ hmap hdyn
          (mem_registrations.mpr ⟨keyOf_mem_owners q r, congrArg EvState.registered hst⟩)
      · exact hbd hori hne
    · exact .inl hdisp
  · simp only [setCpu, update_of_ne hq] at hdisp
    exact .inl hdisp

end

/-! ### Runs -/

/-- No PE unregisters a private dynamic event that it is handling, and the interrupt that
unbound mappings have is not delivered, unless it is that of event 0. -/
def keepsHandled (s : Dispatcher n) : Event n → Bool
  | .unregister pe evNum => idleDynamic s pe evNum
  | .privateReset pe => ((s.maps false).map EvMap.evNum).all (idleDynamic s pe)
  | .sharedReset pe _ => ((s.maps true).map EvMap.evNum).all (idleDynamic s pe)
  | .interrupt _ intr _ =>
    intr ≠ sdeiDynIrq ∨
      (s.findEventMapByIntr intr (platIcIsSpi intr)).all fun found => found.2.evNum = sdeiEvent0
  | _ => true

/-- What a step must meet: the condition on handlers, and those on turning PEs off and
on. -/
def handlersSafe (s : Dispatcher n) (event : Event n) : Bool :=
  keepsHandled s event ∧ offOutsideHandlers s event ∧ onUnregistered s event

theorem idleDynamic_congr (h : idleDynamic s pe evNum = true)
    (hfix : ∀ q, (s'.map? q).map EvMap.fixed = (s.map? q).map EvMap.fixed)
    (hrun : ∀ k, (s'.entries k).state.running = (s.entries k).state.running) :
    idleDynamic s' pe evNum = true := by
  refine idleDynamic_iff.mpr fun i m' hmap' hnum hdyn => ?_
  have hq := hfix ⟨false, i⟩
  rw [hmap', Option.map_some, eq_comm, Option.map_eq_some_iff] at hq
  obtain ⟨m, hmap, heq⟩ := hq
  simp only [EvMap.fixed, Prod.mk.injEq] at heq
  have hdyn' : isMapDynamic m = true := heq.2.1.trans hdyn
  rw [hrun]
  exact idleDynamic_iff.mp h i m hmap (heq.1.trans hnum) hdyn'

theorem HandlersOk.move (h : HandlersOk s) (hnest : StacksOk s') (hcnts : CountsOk s')
    (hkp : keepsHandled s event = true) (hon : onUnregistered s event = true)
    (hmove : Move p s event s') : HandlersOk s' := by
  cases hmove with
  | refuse => exact h
  | register hmap _ hbd => exact h.register hnest hcnts hmap hbd rfl rfl rfl rfl
  | unregister hmap hnum =>
    exact h.unregister hnest hcnts (hnum ▸ hkp) hmap rfl rfl rfl rfl
  | enable | disable | routingSet =>
    exact h.keep_registered hnest hcnts (mapsGrow_of_eq rfl) (fun _ => rfl)
      (registered_setEntry rfl)
  | @claim pe intr i m _ hmap =>
    exact h.keep_registered hnest hcnts
      (mapsGrow_setMap (setMapBound { m with intr := intr } true) hmap rfl rfl rfl (.inl rfl))
      (cpus_setCpu _ rfl) fun _ => rfl
  | release hmap _ _ hdyn hcnt hst => exact h.release hmap hdyn hcnt hst hnest hcnts
  | @complete pe _ _ _ disp stack m ns elr spsr _ hstk =>
    refine h.restack hnest hcnts rfl (registered_setEntry rfl) fun q disp' hdisp => .inl ?_
    obtain rfl | hq := eq_or_ne q pe
    · simp only [setCpu, update_self] at hdisp
      rw [hstk]
      exact mem_cons_of_mem _ hdisp
    · simp only [setCpu, update_of_ne hq] at hdisp
      exact hdisp
  | masked _ _ hmsk =>
    obtain ⟨-, -, rfl⟩ := hmsk
    exact h.keep_registered hnest hcnts (mapsGrow_of_eq rfl) (cpus_setCpu _ rfl) fun _ => rfl
  | @interrupt pe intr _ r m _ hfind _ _ hd =>
    refine h.dispatched hnest hcnts hd fun _ hne => ?_
    obtain ⟨-, hmap, hm⟩ := findEventMapByIntr_eq_some hfind
    rw [← Bool.not_eq_false]
    intro hfree
    rcases of_decide_eq_true hkp with hintr | hall
    · exact hintr (hm.symm.trans (h.free r m hmap hfree hne))
    · rw [hfind] at hall
      exact hne (of_decide_eq_true hall)
  | dispatch _ hd => exact h.dispatched hnest hcnts hd fun hori => by cases hori
  | bind | bindTo | mask | unmask | cpuOff | wakeup =>
    exact h.keep_registered hnest hcnts (mapsGrow_of_eq rfl) (cpus_setCpu _ rfl) fun _ => rfl
  | cpuOn =>
    exact h.keep_registered hnest hcnts (mapsGrow_of_eq rfl) stack_cpuOn (registered_cpuOn hon)

/-- The events that a reset unregisters are not being handled. -/
theorem Event.Resets.keepsHandled {event' : Event n} (hpart : event.Resets s event')
    (hkp : keepsHandled s event = true) : keepsHandled s event' = true := by
  cases hpart with
  | privately hmem | shared hmem => exact all_eq_true.mp hkp _ hmem
  | release => rfl

/-- Nor are they after the other calls of the reset. -/
theorem Event.Resets.keepsHandled_move {s₀ : Dispatcher n} {event' event'' : Event n}
    (hpart : event.Resets s₀ event') (hpart' : event.Resets s₀ event'')
    (hkp : Sdei.keepsHandled s event'' = true) (hmove : Move p s event' s') :
    Sdei.keepsHandled s' event'' = true := by
  obtain ⟨hfix, hrun⟩ := hpart.keep hmove
  cases hpart' with
  | privately | shared => exact idleDynamic_congr hkp hfix hrun
  | release => rfl

theorem HandlersOk.step (h : HandlersOk s) (hsafe : handlersSafe s event = true)
    (hstep : s.step p event = some s') : HandlersOk s' := by
  obtain ⟨hkp, hoff, hon⟩ := of_decide_eq_true hsafe
  refine step_moves (q := fun t => HandlersOk t ∧
    ∀ event', event.Resets s event' → keepsHandled t event' = true) hstep
    (h.move (h.nesting.step hoff hstep) (h.counts.step hon hstep) hkp hon)
    ⟨h, fun event' hpart => hpart.keepsHandled hkp⟩ (fun event' t t' hpart ht hmove => ?_)
    And.left
  obtain ⟨ht, hpts⟩ := ht
  have hoff' : offOutsideHandlers t event' = true := by cases hpart <;> rfl
  have hon' : onUnregistered t event' = true := by cases hpart <;> rfl
  exact ⟨ht.move (ht.nesting.move hoff' hmove) (ht.counts.move hon' hmove) (hpts event' hpart)
    hon' hmove, fun event'' hpart' => hpart.keepsHandled_move hpart' (hpts event'' hpart') hmove⟩

theorem Dispatcher.Started.handlersOk (h : s.Started) : HandlersOk s := by
  refine ⟨h.stacksOk, h.countsOk, fun r m hmap => (h.maps r m hmap).idle, fun r m o _ _ ho => ?_,
    fun pe r m hr => ?_, fun pe disp m hdisp => ?_⟩
  · have hreg := (mem_registrations.mp ho).2
    rw [h.entries] at hreg
    cases hreg
  · rw [refs, h.stack] at hr
    cases hr
  · rw [h.stack] at hdisp
    cases hdisp

theorem HandlersOk.complete_ne_none (h : HandlersOk s) (resume : Bool) (pc : U64)
    (pcValid : Bool) : sdeiEventComplete p s pe resume pc pcValid ≠ none := by
  intro hpan
  unfold sdeiEventComplete at hpan
  dsimp only at hpan
  cases hstk : (s.cpus pe).stack with
  | nil =>
    rw [hstk] at hpan
    cases hpan
  | cons disp stack =>
    have hdisp : disp ∈ (s.cpus pe).stack := by simp [hstk]
    obtain ⟨m, hmap⟩ := h.nesting.mapped pe disp.map (mem_map_of_mem hdisp)
    have hbd : ¬ (disp.origin = .interrupt ∧ m.evNum ≠ sdeiEvent0 ∧ ¬ isMapBound m) := by
      intro hchk
      exact hchk.2.2 (h.handled pe disp m hdisp hmap (decide_eq_true (.inr ⟨hchk.1, hchk.2.1⟩)))
    rw [hstk] at hpan
    simp only [hmap, if_neg hbd] at hpan
    split at hpan
    next hpc => cases hpan
    next hpc =>
      cases htr : canSdeiStateTrans (s.entries (entryKey pe disp.map m)).state
          (if resume then .completeResume else .complete) with
      | none | some =>
        rw [htr] at hpan
        cases hpan

/-- **A dynamic event that is running is bound**, and no completion panics, in every run in
which no PE unregisters a private dynamic event that it is handling. -/
theorem running_is_bound {table : Bool → List EvMap} {g : Gic n} {events : List (Event n)}
    (hinit : sdeiInit p table g = some s) (hrun : run (step p) s events = some s')
    (hok : Along (step p) (fun s event => handlersSafe s event = true) s events) :
    (∀ pe r m, s'.map? r = some m → isMapDynamic m = true →
      (s'.entries (entryKey pe r m)).state.running = true → isMapBound m = true) ∧
    ∀ pe resume pc pcValid, sdeiEventComplete p s' pe resume pc pcValid ≠ none := by
  have h : HandlersOk s' := run_invariant_along (fun _ _ _ => HandlersOk.step)
    (sdeiInit_started hinit).handlersOk hok hrun
  refine ⟨fun pe r m hmap hdyn hru => ?_, fun pe => h.complete_ne_none⟩
  obtain ⟨q, r', hr', hkey⟩ := (h.nesting.running _).mp hru
  rw [entryKey_eq_keyOf (h.nesting.priv r m hmap)] at hkey
  obtain rfl : r' = r := eq_of_mem_owners (keyOf_mem_owners q r') hkey
  obtain ⟨disp, hdisp, rfl⟩ := mem_map.mp hr'
  exact h.handled q disp m hdisp hmap (decide_eq_true (.inl hdyn))

/-- PE 0 binds an interrupt, registers and enables its event, and handles it. -/
def handleBound : List (Event 2) :=
  [.cpuOn 1] ++ bindFirst 0 27 ++ setUp 0 100 ++ [.interrupt 0 27 sampleContext]

theorem running_is_bound_release :
    ∃ s', run (step (samplePlatform true)) (sampleStart true)
        (handleBound ++ [.release 1 100 fun _ => false]) = some s' ∧
      (s'.entries (some 0, 3)).state.running = true ∧
      sdeiEventComplete (samplePlatform true) s' 0 false 0 true ≠ none := by
  have hok : Along (step (samplePlatform true))
      (fun s event => handlersSafe s event = true) (sampleStart true)
      (handleBound ++ [.release 1 100 fun _ => false]) := by
    decide +kernel
  refine exists_some_imp
    (by decide +kernel) fun s' hrun hend => ⟨hend, ?_⟩
  exact (running_is_bound (sampleStart_init true) hrun hok).2 0 false 0 true

/-- **An interrupt is released while its event is running**: the handler unregisters the
private event, another PE releases the interrupt, and the completion panics. -/
theorem released_while_running :
    ∃ s', run (step (samplePlatform true)) (sampleStart true)
        (handleBound ++ [.unregister 0 100]) = some s' ∧
      (sdeiInterruptRelease s' 1 100 fun _ => false).2 = 0 ∧
      (s'.entries (some 0, 3)).state.running = true ∧
      sdeiEventComplete (samplePlatform true) (sdeiInterruptRelease s' 1 100 fun _ => false).1 0
        false 0 true = none := by
  refine exists_some_imp (q := fun s' => (sdeiInterruptRelease s' 1 100 fun _ => false).2 = 0 ∧
    (s'.entries (some 0, 3)).state.running = true ∧
    (sdeiEventComplete (samplePlatform true) (sdeiInterruptRelease s' 1 100 fun _ => false).1 0
      false 0 true).isNone) (by decide +kernel) fun s' _ hend => ?_
  exact ⟨hend.1, hend.2.1, Option.isNone_iff_eq_none.mp hend.2.2⟩

end TrustedFirmware.Sdei
