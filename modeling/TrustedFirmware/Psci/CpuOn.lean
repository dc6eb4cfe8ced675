import TrustedFirmware.Lib.Run
import TrustedFirmware.Psci.Types

/-!
# Turning one CPU on

At the granularity of the accesses to the state that several CPUs share:
`psci_cpu_on_start` (`lib/psci/psci_on.c`) run by any number of callers on the same
target, against the target's own warm boot (`psci_warmboot_entrypoint`,
`psci_cpu_on_finish`) and `psci_do_cpu_off`.

The shared state is the target's `aff_info_state`, the spinlock `cpu_lock` of its
node, its non-secure context, and the power controller. Only the callers hold the
lock around their accesses: the target writes its own state outside it and takes
it for one moment, as a barrier, before it uses the context. Memory is
sequentially consistent, so the cache maintenance of the source has no
counterpart here; the retry that the source makes because of it is modelled.

What an outside observer sees is kept in a trace, newest event first: each write
of `OFF`, each value returned by a `CPU_ON`, and each entry into the normal world.
-/

namespace TrustedFirmware.Psci.CpuOn

open Lib Option List

/-! ### The machine -/

/-- The position of a caller in `psci_cpu_on_start`, with its entry point. -/
inductive CallerPc (EP : Type)
  /-- Not in a `CPU_ON` of this target. -/
  | idle
  /-- About to take the lock. -/
  | enter (ep : EP)
  /-- About to read the state of the target. -/
  | validate (ep : EP)
  /-- The target was found `OFF`; about to write `ON_PENDING`. -/
  | setPending (ep : EP)
  /-- About to read the state back. -/
  | recheck (ep : EP)
  /-- The state read back was not `ON_PENDING`; about to write it again. -/
  | retry (ep : EP)
  /-- About to call `pwr_domain_on`. -/
  | plat (ep : EP)
  /-- Inside `pwr_domain_on`, the target having been powered on. -/
  | powering (ep : EP)
  /-- About to store the entry point in the target's context. -/
  | initCtx (ep : EP)
  /-- `pwr_domain_on` failed; about to restore `OFF`. -/
  | restore (ep : EP)
  /-- About to release the lock and return. -/
  | exit (rc : PsciRc) (ep : EP)
  | assertFailed
  deriving Repr, DecidableEq

/-- The position of the target CPU. -/
inductive TargetPc (EP : Type)
  /-- Powered down, or in the final `wfi` of `psci_do_cpu_off`. -/
  | off
  /-- At the start of `psci_warmboot_entrypoint`, about to check that it is not `OFF`. -/
  | warmboot
  /-- About to choose between the two finishers. -/
  | checkPending
  /-- In `psci_cpu_on_finish`, about to take the lock. -/
  | onFinish
  /-- Holding the lock, about to release it. -/
  | barrier
  /-- About to assert that it is `ON_PENDING`. -/
  | assertPending
  /-- About to read the context in `cm_prepare_el3_exit`. -/
  | prepareExit
  /-- The context read, about to set itself `ON` and leave EL3. -/
  | setRun (ep : EP)
  /-- In the normal world, entered at `ep`. -/
  | running (ep : EP)
  /-- In `psci_do_cpu_off`, before the write of `OFF`. -/
  | cpuOff (ep : EP)
  /-- In `psci_cpu_suspend_finish`: a boot without a pending `CPU_ON`. -/
  | suspendFinish
  | assertFailed
  | panicked
  deriving Repr, DecidableEq

/-- Who holds the spinlock of the target's node. -/
inductive Holder (C : Type)
  | caller (c : C)
  | target
  deriving Repr, DecidableEq

/-- What an observer sees happen to the target. -/
inductive Obs (EP : Type)
  /-- `OFF` written by `psci_setup` or by the target in `psci_do_cpu_off`. -/
  | off
  /-- `OFF` restored by a caller whose `pwr_domain_on` failed. -/
  | restored
  /-- A `CPU_ON` for entry point `ep` returned `rc`. -/
  | returned (rc : PsciRc) (ep : EP)
  /-- The target left EL3 for entry point `ep`. -/
  | left (ep : EP)
  deriving Repr, DecidableEq

/-- The state of the target, and what has been seen of it. -/
structure Target (EP : Type) where
  affInfoState : AffInfoState
  /-- The entry point in the target's non-secure context. -/
  context : Option EP
  /-- The power controller has been told to power the target up. -/
  powered : Bool
  pc : TargetPc EP
  trace : List (Obs EP)

structure State (C EP : Type) where
  cpuLock : Option (Holder C)
  caller : C → CallerPc EP
  target : Target EP

/-- The state that `psci_setup` leaves for a CPU other than the primary. -/
def State.secondary (C EP : Type) : State C EP where
  cpuLock := none
  caller _ := .idle
  target := ⟨.off, none, false, .off, [.off]⟩

/-- The state that `psci_setup` leaves for the primary CPU, which the cold boot
enters at `ep`. -/
def State.primary (C : Type) {EP : Type} (ep : EP) : State C EP where
  cpuLock := none
  caller _ := .idle
  target := ⟨.on, some ep, false, .running ep, []⟩

/-- What happens next: a CPU calls `CPU_ON`, a caller steps (`ok` is the result of
`pwr_domain_on`, where it is called), or the target steps (`deny` is whether it
stays on where it may: the secure payload refuses `CPU_OFF`, or it is not called). -/
inductive Event (C EP : Type)
  | call (c : C) (ep : EP)
  | caller (c : C) (ok : Bool)
  | target (deny : Bool)
  deriving Repr, DecidableEq

variable {C EP : Type} [DecidableEq C]

/-- `cpu_on_validate_state`. -/
def cpuOnValidateState : AffInfoState → PsciRc
  | .on => .alreadyOn
  | .onPending => .onPending
  | .off => .success

/-- Caller `c` moves to `p`, changing the target's state to `t`. -/
def State.move (s : State C EP) (c : C) (p : CallerPc EP) (t : Target EP) : State C EP :=
  { s with caller := Function.update s.caller c p, target := t }

/-- One step of `psci_cpu_on_start`. A caller at the lock steps only when it is free. -/
def callerStep (s : State C EP) (c : C) (ok : Bool) : Option (State C EP) :=
  let t := s.target
  match s.caller c with
  | .idle => none
  | .enter ep =>
    if s.cpuLock = none then some { s.move c (.validate ep) t with cpuLock := some (.caller c) }
    else none
  | .validate ep =>
    let rc := cpuOnValidateState t.affInfoState
    some (s.move c (if rc = .success then .setPending ep else .exit rc ep) t)
  | .setPending ep => some (s.move c (.recheck ep) { t with affInfoState := .onPending })
  | .recheck ep =>
    match t.affInfoState with
    | .onPending => some (s.move c (.plat ep) t)
    | .off => some (s.move c (.retry ep) t)
    | .on => some (s.move c .assertFailed t)
  | .retry ep => some (s.move c (.plat ep) { t with affInfoState := .onPending })
  | .plat ep =>
    if ok then some (s.move c (.powering ep) { t with powered := true })
    else some (s.move c (.restore ep) t)
  | .powering ep => some (s.move c (.initCtx ep) t)
  | .initCtx ep => some (s.move c (.exit .success ep) { t with context := some ep })
  | .restore ep =>
    some (s.move c (.exit .internFail ep)
      { t with affInfoState := .off, trace := .restored :: t.trace })
  | .exit rc ep =>
    some { s.move c .idle { t with trace := .returned rc ep :: t.trace } with cpuLock := none }
  | .assertFailed => none

/-- One step of the target that does not touch the lock. Powered down, it steps only
once it has been powered on. -/
def Target.step (t : Target EP) (deny : Bool) : Option (Target EP) :=
  match t.pc with
  | .off => if t.powered then some { t with pc := .warmboot, powered := false } else none
  | .warmboot => some { t with pc := if t.affInfoState = .off then .panicked else .checkPending }
  | .checkPending =>
    some { t with pc := if t.affInfoState = .onPending then .onFinish else .suspendFinish }
  | .assertPending =>
    some { t with pc := if t.affInfoState = .onPending then .prepareExit else .assertFailed }
  | .prepareExit => t.context.map fun ep => { t with pc := .setRun ep }
  | .setRun ep =>
    some { t with pc := .running ep, affInfoState := .on, trace := .left ep :: t.trace }
  | .running ep => some { t with pc := if deny then .running ep else .cpuOff ep }
  | .cpuOff ep =>
    if deny then some { t with pc := .running ep }
    else some { t with pc := .off, affInfoState := .off, trace := .off :: t.trace }
  | .onFinish | .barrier | .suspendFinish | .assertFailed | .panicked => none

/-- One step of the target; it takes the lock only to release it at its next step. -/
def targetStep (s : State C EP) (deny : Bool) : Option (State C EP) :=
  match s.target.pc with
  | .onFinish =>
    if s.cpuLock = none then
      some { s with cpuLock := some .target, target := { s.target with pc := .barrier } }
    else none
  | .barrier => some { s with cpuLock := none, target := { s.target with pc := .assertPending } }
  | _ => (s.target.step deny).map fun t => { s with target := t }

def step (s : State C EP) : Event C EP → Option (State C EP)
  | .call c ep =>
    match s.caller c with
    | .idle => some (s.move c (.enter ep) s.target)
    | _ => none
  | .caller c ok => callerStep s c ok
  | .target deny => targetStep s deny

/-! ### What a trace must look like -/

/-- The target is `OFF` right after this event. -/
def Obs.IsOff : Obs EP → Prop
  | .off | .restored => True
  | .returned _ _ | .left _ => False

/-- The entry points of the `CPU_ON` calls that returned success since the target
was last `OFF`, newest first. -/
def successes : List (Obs EP) → List EP
  | [] => []
  | .off :: _ | .restored :: _ => []
  | .returned rc ep :: t => if rc = .success then ep :: successes t else successes t
  | .left _ :: t => successes t

/-- A trace in which every call and every boot is accounted for: `CPU_ON` succeeds
at most once between two times the target is `OFF`, and did so once if the target
turned itself off or entered the normal world. (The cold boot of the primary CPU
is the one boot without a `CPU_ON`: there the trace has not been `OFF` before.) -/
def TraceOk : List (Obs EP) → Prop
  | [] => True
  | .off :: t => TraceOk t ∧ ((∃ ep, successes t = [ep]) ∨ ∀ o ∈ t, ¬ o.IsOff)
  | .restored :: t => TraceOk t ∧ successes t = []
  | .left ep :: t => TraceOk t ∧ successes t = [ep]
  | .returned .success _ :: t => TraceOk t ∧ successes t = []
  | .returned .internFail _ :: t => TraceOk t ∧ ∃ u, t = .restored :: u
  | .returned rc _ :: t => TraceOk t ∧ (rc = .alreadyOn ∨ rc = .onPending)

/-! ### The invariant

Whoever is past the read of `OFF` holds the lock, so what is known about the
target's state depends on the position of the lock holder only. -/

/-- The positions between taking the lock and releasing it. -/
def CallerPc.Holding : CallerPc EP → Prop
  | .idle | .enter _ => False
  | _ => True

/-- The position of the caller that holds the lock. -/
def State.holderPc (s : State C EP) : CallerPc EP :=
  match s.cpuLock with
  | some (.caller c) => s.caller c
  | _ => .idle

/-- The target is off, not powered, and nobody has succeeded to turn it on. -/
structure Quiet (t : Target EP) (aff : AffInfoState) : Prop where
  aff : t.affInfoState = aff
  pc : t.pc = .off
  powered : t.powered = false
  successes : successes t.trace = []

/-- The target has been powered on and has not gone past the barrier. -/
def Waking (t : Target EP) : Prop :=
  (t.pc = .off ∧ t.powered = true) ∨
    (t.powered = false ∧ (t.pc = .warmboot ∨ t.pc = .checkPending ∨ t.pc = .onFinish))

/-- The target has gone past the barrier, on its way to `ep`. -/
def Finishing (t : Target EP) (ep : EP) : Prop :=
  t.powered = false ∧
    (t.pc = .barrier ∨ t.pc = .assertPending ∨ t.pc = .prepareExit ∨ t.pc = .setRun ep)

/-- `pwr_domain_on` has powered the target on for a caller that has not returned. -/
structure Powering (t : Target EP) : Prop where
  aff : t.affInfoState = .onPending
  waking : Waking t
  successes : successes t.trace = []

/-- One `CPU_ON` has returned success, its entry point is in the context, and the
target is on its way. -/
structure Pending (t : Target EP) (ep : EP) : Prop where
  aff : t.affInfoState = .onPending
  context : t.context = some ep
  pc : Waking t ∨ Finishing t ep
  successes : successes t.trace = [ep]

/-- The target runs at `ep`, turned on by the one `CPU_ON` that returned success,
or by the cold boot. -/
structure Running (t : Target EP) (ep : EP) : Prop where
  aff : t.affInfoState = .on
  pc : t.pc = .running ep ∨ t.pc = .cpuOff ep
  powered : t.powered = false
  successes : successes t.trace = [ep] ∨ (successes t.trace = [] ∧ ∀ o ∈ t.trace, ¬ o.IsOff)

/-- No caller is between its read of `OFF` and its return. -/
def Settled (t : Target EP) : Prop :=
  Quiet t .off ∨ (∃ ep, Pending t ep) ∨ ∃ ep, Running t ep

/-- What is known about the target when the lock holder is at this position. -/
def Phase (t : Target EP) : CallerPc EP → Prop
  | .idle | .enter _ | .validate _ => Settled t
  | .setPending _ => Quiet t .off
  | .recheck _ | .plat _ | .restore _ => Quiet t .onPending
  | .powering _ | .initCtx _ => Powering t
  | .exit .success ep => Powering t ∧ t.context = some ep
  | .exit .internFail _ => Quiet t .off ∧ ∃ u, t.trace = .restored :: u
  | .exit rc _ => Settled t ∧ (rc = .alreadyOn ∨ rc = .onPending)
  | .retry _ | .assertFailed => False

structure Inv (s : State C EP) : Prop where
  holding : ∀ c, s.cpuLock = some (.caller c) ↔ (s.caller c).Holding
  barrier : s.cpuLock = some .target ↔ s.target.pc = .barrier
  phase : Phase s.target s.holderPc
  trace : TraceOk s.target.trace

omit [DecidableEq C] in
theorem Inv.secondary : Inv (State.secondary C EP) where
  holding c := by simp [State.secondary, CallerPc.Holding]
  barrier := by simp [State.secondary]
  phase := .inl ⟨rfl, rfl, rfl, rfl⟩
  trace := ⟨trivial, .inr (by simp)⟩

omit [DecidableEq C] in
theorem Inv.primary (ep : EP) : Inv (State.primary C ep) where
  holding c := by simp [State.primary, CallerPc.Holding]
  barrier := by simp [State.primary]
  phase := .inr (.inr ⟨ep, rfl, .inl rfl, rfl, .inr ⟨rfl, by simp [State.primary]⟩⟩)
  trace := trivial

variable {s : State C EP} {c : C}

omit [DecidableEq C] in
theorem Inv.at_pc {p : CallerPc EP} (h : Inv s) (hpc : s.caller c = p) (hp : p.Holding) :
    (s.caller c).Holding ∧ Phase s.target p := by
  subst hpc
  have hph := h.phase
  rw [State.holderPc, (h.holding c).mpr hp] at hph
  exact ⟨hp, hph⟩

omit [DecidableEq C] in
/-- With the lock free, nobody is between the read of `OFF` and the return. -/
theorem Inv.settled_of_free (h : Inv s) (hl : s.cpuLock = none) : Settled s.target := by
  have hp := h.phase
  rwa [State.holderPc, hl] at hp

/-! ### Callers -/

variable {p : CallerPc EP} {t : Target EP}

theorem Inv.holderMoves (h : Inv s) (hc : (s.caller c).Holding) (hp : p.Holding)
    (hpc : t.pc = s.target.pc) (hph : Phase t p) (htrc : TraceOk t.trace) :
    Inv (s.move c p t) := by
  have hl : s.cpuLock = some (.caller c) := (h.holding c).mpr hc
  refine ⟨fun d => ?_, ?_, ?_, htrc⟩ <;> simp only [State.move]
  · by_cases hd : d = c
    · subst hd; simpa [hl] using hp
    · simpa [hd] using h.holding d
  · rw [hpc]; exact h.barrier
  · rw [State.holderPc, hl]
    simpa using hph

variable {ep : EP} {rc : PsciRc}

theorem Inv.call (h : Inv s) (hpc : s.caller c = .idle) : Inv (s.move c (.enter ep) s.target) := by
  have hfree : s.cpuLock ≠ some (.caller c) := by
    simp [h.holding c, hpc, CallerPc.Holding]
  have hhol : (s.move c (.enter ep) s.target).holderPc = s.holderPc := by
    cases hl : s.cpuLock with
    | none => simp [State.holderPc, State.move, hl]
    | some hol =>
      cases hol with
      | target => simp [State.holderPc, State.move, hl]
      | caller d =>
        have hd : d ≠ c := by
          rintro rfl
          exact hfree hl
        simp [State.holderPc, State.move, hl, hd]
  refine ⟨fun d => ?_, h.barrier, by rw [hhol]; exact h.phase, h.trace⟩
  obtain rfl | hd := eq_or_ne d c
  · simp [State.move, hfree, CallerPc.Holding]
  · simpa [State.move, hd] using h.holding d

theorem Inv.acquire (h : Inv s) (hl : s.cpuLock = none) :
    Inv { s.move c (.validate ep) s.target with cpuLock := some (.caller c) } := by
  refine ⟨fun d => ?_, ?_, ?_, h.trace⟩ <;> simp only [State.move]
  · by_cases hd : d = c
    · subst hd; simp [CallerPc.Holding]
    · have hfree := h.holding d
      simpa [hl, hd, Ne.symm hd] using hfree
  · have hb := h.barrier
    simpa [hl] using hb
  · rw [State.holderPc]
    simpa [Phase] using h.settled_of_free hl

/-- A caller returns; the target's state is settled again. -/
theorem Inv.release (h : Inv s) (hc : (s.caller c).Holding)
    (hpc : t.pc = s.target.pc) (hset : Settled t) (htrc : TraceOk t.trace) :
    Inv { s.move c .idle t with cpuLock := none } := by
  have hl : s.cpuLock = some (.caller c) := (h.holding c).mpr hc
  refine ⟨fun d => ?_, ?_, hset, htrc⟩ <;> simp only [State.move]
  · by_cases hd : d = c
    · subst hd; simp [CallerPc.Holding]
    · have hfree := h.holding d
      simpa [hl, hd, Ne.symm hd] using hfree
  · have hb := h.barrier
    simpa [hl, hpc] using hb

omit [DecidableEq C] in
/-- A call that finds the target busy leaves everything as it was. -/
theorem Settled.returned (h : Settled t) (hrc : rc ≠ .success)
    (ep : EP) : Settled { t with trace := .returned rc ep :: t.trace } := by
  have hsucc : successes (.returned rc ep :: t.trace) = successes t.trace := by
    simp [successes, hrc]
  rcases h with hq | ⟨e, hp⟩ | ⟨e, hr⟩
  · exact .inl ⟨hq.aff, hq.pc, hq.powered, hsucc.trans hq.successes⟩
  · exact .inr (.inl ⟨e, hp.aff, hp.context, hp.pc, hsucc.trans hp.successes⟩)
  · refine .inr (.inr ⟨e, hr.aff, hr.pc, hr.powered, ?_⟩)
    rcases hr.successes with hs | ⟨hs, hoff⟩
    · exact .inl (hsucc.trans hs)
    · exact .inr ⟨hsucc.trans hs, forall_mem_cons.mpr ⟨fun hoff => hoff, hoff⟩⟩

omit [DecidableEq C] in
theorem Settled.quiet (h : Settled t) (haff : t.affInfoState = .off) : Quiet t .off := by
  rcases h with hq | ⟨e, hp⟩ | ⟨e, hr⟩
  · exact hq
  · cases hp.aff.symm.trans haff
  · cases hr.aff.symm.trans haff

variable {s' : State C EP} {o : Obs EP}

theorem Inv.callerStep (h : Inv s) {ok : Bool} (hs : callerStep s c ok = some s') : Inv s' := by
  unfold CpuOn.callerStep at hs
  generalize hpc : s.caller c = pc at hs
  cases pc with
  | idle | assertFailed => cases hs
  | enter =>
    dsimp only at hs
    split at hs
    next hl =>
      cases hs
      exact h.acquire hl
    · cases hs
  | validate =>
    obtain ⟨hold, hset⟩ := h.at_pc hpc trivial
    cases hs
    cases haff : s.target.affInfoState with
    | on => exact h.holderMoves hold trivial rfl ⟨hset, .inl rfl⟩ h.trace
    | onPending => exact h.holderMoves hold trivial rfl ⟨hset, .inr rfl⟩ h.trace
    | off => exact h.holderMoves hold trivial rfl (hset.quiet haff) h.trace
  | setPending =>
    obtain ⟨hold, hq⟩ := h.at_pc hpc trivial
    cases hs
    exact h.holderMoves hold trivial rfl ⟨rfl, hq.pc, hq.powered, hq.successes⟩ h.trace
  | recheck =>
    obtain ⟨hold, hq⟩ := h.at_pc hpc trivial
    -- Nobody else can have written the state since: the retry is never needed.
    simp only [hq.aff] at hs
    cases hs
    exact h.holderMoves hold trivial rfl hq h.trace
  | retry =>
    exact (h.at_pc hpc trivial).2.elim
  | plat =>
    obtain ⟨hold, hq⟩ := h.at_pc hpc trivial
    dsimp only at hs
    split at hs
    · cases hs
      exact h.holderMoves hold trivial rfl ⟨hq.aff, .inl ⟨hq.pc, rfl⟩, hq.successes⟩ h.trace
    · cases hs
      exact h.holderMoves hold trivial rfl hq h.trace
  | powering =>
    obtain ⟨hold, hw⟩ := h.at_pc hpc trivial
    cases hs
    exact h.holderMoves hold trivial rfl hw h.trace
  | initCtx =>
    obtain ⟨hold, hw⟩ := h.at_pc hpc trivial
    cases hs
    exact h.holderMoves hold trivial rfl ⟨⟨hw.aff, hw.waking, hw.successes⟩, rfl⟩ h.trace
  | restore =>
    obtain ⟨hold, hq⟩ := h.at_pc hpc trivial
    cases hs
    exact h.holderMoves hold trivial rfl ⟨⟨rfl, hq.pc, hq.powered, rfl⟩, _, rfl⟩
      ⟨h.trace, hq.successes⟩
  | exit rc ep =>
    obtain ⟨hold, hp⟩ := h.at_pc hpc trivial
    cases hs
    refine h.release hold rfl ?_ ?_
    · cases rc with
      | success =>
        obtain ⟨hw, hctx⟩ := hp
        refine .inr (.inl ⟨ep, hw.aff, hctx, .inl hw.waking, ?_⟩)
        simp [successes, hw.successes]
      | internFail => exact Settled.returned (.inl hp.1) (by decide) ep
      | alreadyOn | onPending => exact hp.1.returned (by decide) ep
      | invalidParams | denied => exact absurd hp.2 (by decide)
    · cases rc with
      | success => exact ⟨h.trace, hp.1.successes⟩
      | internFail | alreadyOn | onPending => exact ⟨h.trace, hp.2⟩
      | invalidParams | denied => exact absurd hp.2 (by decide)

/-! ### The target -/

section

omit [DecidableEq C]

variable {t t' : Target EP} {deny : Bool}

theorem Quiet.not_step {aff : AffInfoState} (h : Quiet t aff) : t.step deny = none := by
  simp [Target.step, h.pc, h.powered]

/-- Between its wake-up and the normal world, the target is pending. -/
theorem Settled.pending (h : Settled t) (hpc : t.pc = .onFinish ∨ t.pc = .barrier) :
    ∃ ep, Pending t ep := by
  rcases h with hq | hp | ⟨ep, hr⟩
  · rw [hq.pc] at hpc
    simp at hpc
  · exact hp
  · rcases hr.pc with h' | h' <;> rw [h'] at hpc <;> simp at hpc

theorem Pending.not_powered (h : Pending t ep) (hpc : t.pc = .onFinish ∨ t.pc = .barrier) :
    t.powered = false := by
  rcases h.pc with (⟨hoff, -⟩ | ⟨hpow, -⟩) | ⟨hpow, -⟩
  · rw [hoff] at hpc
    simp at hpc
  · exact hpow
  · exact hpow

variable (hs : t.step deny = some t')
include hs

/-- Powered on under the caller's feet, the target gets as far as the barrier. -/
theorem Waking.step (h : Waking t) (haff : t.affInfoState = .onPending) :
    Waking t' ∧ t'.affInfoState = .onPending ∧ t'.trace = t.trace ∧ t'.context = t.context := by
  rcases h with ⟨hpc, hpow⟩ | ⟨hpow, hpc | hpc | hpc⟩ <;>
    simp only [Target.step, hpc, hpow, haff, reduceIte, some.injEq, reduceCtorEq] at hs <;>
    subst hs
  · exact ⟨.inr ⟨rfl, .inl rfl⟩, rfl, rfl, rfl⟩
  · exact ⟨.inr ⟨rfl, .inr (.inl rfl)⟩, rfl, rfl, rfl⟩
  · exact ⟨.inr ⟨rfl, .inr (.inr rfl)⟩, rfl, rfl, rfl⟩

theorem Powering.step (h : Powering t) :
    Powering t' ∧ t'.trace = t.trace ∧ t'.context = t.context := by
  obtain ⟨hw, haff, htr, hctx⟩ := h.waking.step hs h.aff
  exact ⟨⟨haff, hw, by rw [htr]; exact h.successes⟩, htr, hctx⟩

/-- Past the barrier the assertion holds, and the entry point is the stored one. -/
theorem Pending.step (h : Pending t ep) (htr : TraceOk t.trace) :
    (Pending t' ep ∨ Running t' ep) ∧ TraceOk t'.trace := by
  rcases h.pc with hw | ⟨hpow, hpc | hpc | hpc | hpc⟩
  · obtain ⟨hw', haff, ht, hctx⟩ := hw.step hs h.aff
    rw [ht]
    exact ⟨.inl ⟨haff, hctx.trans h.context, .inl hw', by rw [ht]; exact h.successes⟩, htr⟩
  · simp [Target.step, hpc] at hs
  · simp only [Target.step, hpc, h.aff, reduceIte] at hs
    cases hs
    exact ⟨.inl ⟨rfl, h.context, .inr ⟨hpow, .inr (.inr (.inl rfl))⟩, h.successes⟩, htr⟩
  · rw [Target.step, hpc, h.context, map_some] at hs
    cases hs
    exact ⟨.inl ⟨h.aff, rfl, .inr ⟨hpow, .inr (.inr (.inr rfl))⟩, h.successes⟩, htr⟩
  · rw [Target.step, hpc] at hs
    cases hs
    exact ⟨.inr ⟨rfl, .inl rfl, hpow, .inl h.successes⟩, htr, h.successes⟩

theorem Running.step (h : Running t ep) (htr : TraceOk t.trace) :
    (Running t' ep ∨ Quiet t' .off) ∧ TraceOk t'.trace := by
  rcases h.pc with hpc | hpc
  · rw [Target.step, hpc] at hs
    cases hs
    refine ⟨.inl ⟨h.aff, ?_, h.powered, h.successes⟩, htr⟩
    cases deny with
    | true => exact .inl rfl
    | false => exact .inr rfl
  · simp only [Target.step, hpc] at hs
    split at hs
    · cases hs
      exact ⟨.inl ⟨h.aff, .inl rfl, h.powered, h.successes⟩, htr⟩
    · cases hs
      refine ⟨.inr ⟨rfl, rfl, h.powered, rfl⟩, htr, ?_⟩
      rcases h.successes with hs | ⟨-, hoff⟩
      · exact .inl ⟨ep, hs⟩
      · exact .inr hoff

theorem Settled.step (h : Settled t) (htr : TraceOk t.trace) :
    Settled t' ∧ TraceOk t'.trace := by
  rcases h with hq | ⟨ep, hp⟩ | ⟨ep, hr⟩
  · rw [hq.not_step] at hs; cases hs
  · obtain ⟨hp | hr, htr'⟩ := hp.step hs htr
    · exact ⟨.inr (.inl ⟨ep, hp⟩), htr'⟩
    · exact ⟨.inr (.inr ⟨ep, hr⟩), htr'⟩
  · obtain ⟨hr | hq, htr'⟩ := hr.step hs htr
    · exact ⟨.inr (.inr ⟨ep, hr⟩), htr'⟩
    · exact ⟨.inl hq, htr'⟩

/-- Whatever the lock holder is doing, the target keeps what it relies on. -/
theorem Phase.step (h : Phase t p) (htr : TraceOk t.trace) :
    Phase t' p ∧ TraceOk t'.trace := by
  have hqt : ∀ {aff}, Quiet t aff → Phase t' p ∧ TraceOk t'.trace := by
    intro aff hq
    rw [hq.not_step] at hs; cases hs
  cases p with
  | idle | enter | validate => exact Settled.step hs h htr
  | setPending | recheck | plat | restore => exact hqt h
  | retry | assertFailed => exact h.elim
  | powering | initCtx =>
    obtain ⟨hw, ht, -⟩ := Powering.step hs h
    exact ⟨hw, by rw [ht]; exact htr⟩
  | exit rc =>
    cases rc with
    | success =>
      obtain ⟨hw, ht, hctx⟩ := h.1.step hs
      exact ⟨⟨hw, hctx.trans h.2⟩, by rw [ht]; exact htr⟩
    | internFail => exact hqt h.1
    | alreadyOn | onPending => exact ⟨⟨(h.1.step hs htr).1, h.2⟩, (h.1.step hs htr).2⟩
    | invalidParams | denied => exact absurd h.2 (by decide)

/-- The steps of `Target.step` neither start nor end at the barrier. -/
theorem Target.step_not_barrier : t.pc ≠ .barrier ∧ t'.pc ≠ .barrier := by
  cases hpc : t.pc with
  | off | cpuOff ep =>
    simp only [Target.step, hpc] at hs
    split at hs <;> cases hs <;> simp
  | prepareExit =>
    simp only [Target.step, hpc, map_eq_some_iff] at hs
    obtain ⟨ep, -, rfl⟩ := hs
    simp
  | setRun =>
    rw [Target.step, hpc] at hs
    cases hs
    simp
  | warmboot | checkPending | assertPending | running ep =>
    rw [Target.step, hpc] at hs
    cases hs
    split <;> simp
  | onFinish | barrier | suspendFinish | assertFailed | panicked =>
    simp [Target.step, hpc] at hs

end

omit [DecidableEq C] in
theorem Inv.targetStep (h : Inv s) {deny : Bool} (hs : targetStep s deny = some s') : Inv s' := by
  unfold CpuOn.targetStep at hs
  split at hs
  next hpc =>
    split at hs
    next hl =>
      cases hs
      obtain ⟨ep, hp⟩ := (h.settled_of_free hl).pending (.inl hpc)
      refine ⟨fun c => ?_, by simp, ?_, h.trace⟩
      · have hc := h.holding c
        simpa [hl] using hc
      · exact .inr (.inl ⟨ep, hp.aff, hp.context,
          .inr ⟨hp.not_powered (.inl hpc), .inl rfl⟩, hp.successes⟩)
    · cases hs
  next hpc =>
    cases hs
    have hl : s.cpuLock = some .target := h.barrier.mpr hpc
    have hph := h.phase
    simp only [State.holderPc, hl] at hph
    obtain ⟨ep, hp⟩ := Settled.pending hph (.inr hpc)
    refine ⟨fun c => ?_, by simp, ?_, h.trace⟩
    · have hc := h.holding c
      simpa [hl] using hc
    · exact .inr (.inl ⟨ep, hp.aff, hp.context,
        .inr ⟨hp.not_powered (.inr hpc), .inr (.inl rfl)⟩, hp.successes⟩)
  · obtain ⟨t, ht, rfl⟩ := map_eq_some_iff.mp hs
    obtain ⟨hpha, htrc⟩ := h.phase.step ht h.trace
    obtain ⟨hb, hb'⟩ := Target.step_not_barrier ht
    refine ⟨h.holding, ?_, hpha, htrc⟩
    have hl : s.cpuLock ≠ some .target := fun hl => hb (h.barrier.mp hl)
    simp [hl, hb']

theorem Inv.step (h : Inv s) {e : Event C EP} (hs : step s e = some s') : Inv s' := by
  cases e with
  | caller => exact h.callerStep hs
  | target => exact h.targetStep hs
  | call =>
    simp only [CpuOn.step] at hs
    split at hs
    next hpc =>
      cases hs
      exact h.call hpc
    · cases hs

/-- The states that `psci_setup` can leave. -/
def State.Initial (s : State C EP) : Prop :=
  s = .secondary C EP ∨ ∃ ep, s = .primary C ep

/-! ### Reading the trace -/

section

omit [DecidableEq C]

theorem TraceOk.tail {t : List (Obs EP)} (h : TraceOk (o :: t)) : TraceOk t := by
  cases o with
  | off | restored | left => exact h.1
  | returned rc => cases rc <;> exact h.1

theorem TraceOk.older {newer older : List (Obs EP)} (h : TraceOk (newer ++ older)) :
    TraceOk older := by
  induction newer with
  | nil => exact h
  | cons o newer ih => exact ih h.tail

/-- The entry points of the calls in a trace that returned success. -/
def succeeded (t : List (Obs EP)) : List EP :=
  t.filterMap fun
    | .returned .success ep => some ep
    | _ => none

theorem successes_append_off {mid : List (Obs EP)} (ho : o.IsOff)
    (hmid : ∀ o ∈ mid, ¬ o.IsOff) (older : List (Obs EP)) :
    successes (mid ++ o :: older) = succeeded mid := by
  induction mid with
  | nil => cases o <;> first | rfl | exact ho.elim
  | cons m mid ih =>
    have ih := ih fun o ho => hmid o (mem_cons_of_mem m ho)
    have hm := hmid m mem_cons_self
    cases m with
    | off | restored => exact absurd trivial hm
    | left => simpa [successes, succeeded] using ih
    | returned rc => cases rc <;> simpa [successes, succeeded] using ih

/-- The positions that a correct run never puts the target in. -/
def TargetPc.Bad : TargetPc EP → Prop
  | .suspendFinish | .assertFailed | .panicked => True
  | _ => False

theorem Waking.not_bad (h : Waking t) : ¬ t.pc.Bad := by
  rcases h with ⟨hpc, -⟩ | ⟨-, hpc | hpc | hpc⟩ <;> simp [hpc, TargetPc.Bad]

theorem Settled.not_bad (h : Settled t) : ¬ t.pc.Bad := by
  rcases h with hq | ⟨ep, hp⟩ | ⟨ep, hr⟩
  · simp [hq.pc, TargetPc.Bad]
  · rcases hp.pc with hw | ⟨-, hpc | hpc | hpc | hpc⟩
    · exact hw.not_bad
    all_goals simp [hpc, TargetPc.Bad]
  · rcases hr.pc with hpc | hpc <;> simp [hpc, TargetPc.Bad]

theorem Phase.not_bad (h : Phase t p) : ¬ t.pc.Bad := by
  have hqt : ∀ {aff}, Quiet t aff → ¬ t.pc.Bad := fun hq => by simp [hq.pc, TargetPc.Bad]
  cases p with
  | idle | enter | validate => exact Settled.not_bad h
  | setPending | recheck | plat | restore => exact hqt h
  | retry | assertFailed => exact h.elim
  | powering | initCtx => exact (Powering.waking h).not_bad
  | exit rc =>
    cases rc with
    | success => exact h.1.waking.not_bad
    | internFail => exact hqt h.1
    | alreadyOn | onPending | invalidParams | denied => exact h.1.not_bad

/-- What each event of a sound trace says about the events before it. -/
theorem TraceOk.returned {newer older : List (Obs EP)}
    (h : TraceOk (newer ++ .returned rc ep :: older)) :
    rc = .success ∨ rc = .alreadyOn ∨ rc = .onPending ∨
      rc = .internFail ∧ older.head? = some .restored := by
  have ho := h.older
  cases rc with
  | success | alreadyOn | onPending => simp
  | invalidParams | denied => simpa using ho.2
  | internFail =>
    obtain ⟨u, rfl⟩ := ho.2
    simp

theorem TraceOk.between_off {newer mid older : List (Obs EP)} {o₁ o₂ : Obs EP}
    (h : TraceOk (newer ++ o₁ :: (mid ++ o₂ :: older))) (h₁ : o₁.IsOff) (h₂ : o₂.IsOff)
    (hmid : ∀ o ∈ mid, ¬ o.IsOff) :
    o₁ = .off ∧ (∃ ep, succeeded mid = [ep]) ∨ o₁ = .restored ∧ succeeded mid = [] := by
  have ho := h.older
  rw [← successes_append_off h₂ hmid older]
  cases o₁ with
  | off =>
    rcases ho.2 with hs | hno
    · exact .inl ⟨rfl, hs⟩
    · exact absurd h₂ (hno o₂ (by simp))
  | restored => exact .inr ⟨rfl, ho.2⟩
  | returned | left => exact h₁.elim

end

/-! ### The races are harmless -/

/-- **One owner per `OFF`.** For every interleaving of any number of `CPU_ON` calls
on one target, its warm boot and its `CPU_OFF`, with `pwr_domain_on` failing at
will:
* between two consecutive times the target is `OFF`, exactly one `CPU_ON` returned
  success if the target turned itself off, and none if the second `OFF` is the one
  a failed `CPU_ON` restored;
* every other call returned `ALREADY_ON` or `ON_PENDING`, or `INTERN_FAIL` right
  after restoring `OFF`;
* the target leaves EL3 only for the entry point of the one call that succeeded
  since it was last `OFF`;
* no assertion fails, on either side, and a booting target is never taken for a
  resuming or an `OFF` one. -/
theorem cpu_on_single_owner {s₀ s : State C EP} (h₀ : s₀.Initial) {evs : List (Event C EP)}
    (hrun : run step s₀ evs = some s) :
    (∀ newer o₁ mid o₂ older, s.target.trace = newer ++ o₁ :: (mid ++ o₂ :: older) →
      o₁.IsOff → o₂.IsOff → (∀ o ∈ mid, ¬ o.IsOff) →
      o₁ = .off ∧ (∃ ep, succeeded mid = [ep]) ∨ o₁ = .restored ∧ succeeded mid = []) ∧
    (∀ newer rc ep older, s.target.trace = newer ++ .returned rc ep :: older →
      rc = .success ∨ rc = .alreadyOn ∨ rc = .onPending ∨
        rc = .internFail ∧ older.head? = some .restored) ∧
    (∀ newer ep older, s.target.trace = newer ++ .left ep :: older → successes older = [ep]) ∧
    ¬ s.target.pc.Bad ∧ ∀ c, s.caller c ≠ .assertFailed := by
  have h : Inv s := by
    refine run_invariant (fun s e s' hs h => hs.step h) ?_ hrun
    rcases h₀ with rfl | ⟨ep, rfl⟩
    · exact Inv.secondary
    · exact Inv.primary ep
  have htrc := h.trace
  refine ⟨?_, ?_, ?_, h.phase.not_bad, ?_⟩
  · intro newer o₁ mid o₂ older ht h₁ h₂ hmid
    rw [ht] at htrc
    exact htrc.between_off h₁ h₂ hmid
  · intro newer rc ep older ht
    rw [ht] at htrc
    exact htrc.returned
  · intro newer ep older ht
    rw [ht] at htrc
    exact htrc.older.2
  · intro c hc
    exact (h.at_pc hc trivial).2

/-- Two callers race for the target; the first powers it on, the second is told that
it is pending; the target boots, runs, and turns itself off. -/
def racedEvents : List (Event Bool Nat) :=
  [.call true 10, .call false 20] ++ replicate 5 (.caller true true) ++
  replicate 3 (.target false) ++ replicate 3 (.caller true true) ++
  replicate 3 (.caller false true) ++ replicate 7 (.target false)

theorem cpu_on_single_owner_raced :
    ∃ s, run step (State.secondary Bool Nat) racedEvents = some s ∧
      s.target.trace = [.off, .left 10, .returned .onPending 20, .returned .success 10, .off] ∧
      succeeded [.left 10, .returned .onPending 20, .returned .success 10] = [10] ∧
      ¬ s.target.pc.Bad := by
  refine exists_some_imp (q := fun s => s.target.trace =
    [.off, .left 10, .returned .onPending 20, .returned .success 10, .off]) (by decide)
    fun s hs htrc => ?_
  obtain ⟨hoff, -, -, hbad, -⟩ := cpu_on_single_owner (.inl rfl) hs
  refine ⟨htrc, ?_, hbad⟩
  rcases hoff [] .off [.left 10, .returned .onPending 20, .returned .success 10] .off [] htrc
    trivial trivial (by simp [Obs.IsOff]) with ⟨-, ep, hep⟩ | ⟨hne, -⟩
  · rw [hep]
    simpa [succeeded] using hep.symm
  · cases hne

end TrustedFirmware.Psci.CpuOn
