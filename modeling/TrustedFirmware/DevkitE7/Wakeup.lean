import TrustedFirmware.Lib.Run
import TrustedFirmware.Psci.Types

/-!
# The power hooks of the platform on several CPUs (`e7_pm.c`)

`ensemble_pwr_domain_on` and `ensemble_pwr_domain_off` read `HOST_CPU_WAKEUP`, change the bit of one
CPU, and write it back. Each of these accesses is a step of its own here, with any other CPU in
between.

PSCI holds locks around the hooks, but not the same ones: `psci_cpu_on_start` has the lock of the
CPU that is turned on, and finds that CPU `OFF`; `psci_do_cpu_off` has the locks of all domains
above the caller, of which the topmost is common to all CPUs; and `ensemble_system_off` calls the
hook without a lock. The rest of PSCI is reduced to what decides which hooks can run.
-/

namespace TrustedFirmware.DevkitE7.Wakeup

open Lib Psci Option BitVec
open Function (update update_of_ne update_self)

variable {n : Nat}

/-! ### The machine -/

/-- `1 << cpu`. -/
def bit (cpu : Fin n) : BitVec 32 := 1#32 <<< cpu.val

/-- A hook, and who calls it. -/
inductive Hook (n : Nat)
  /-- `ensemble_pwr_domain_on`, from `psci_cpu_on_start`. -/
  | on (target : Fin n)
  /-- `ensemble_pwr_domain_off`, from `psci_do_cpu_off`. -/
  | off
  /-- `ensemble_pwr_domain_off`, from `ensemble_system_off`. -/
  | systemOff
  deriving DecidableEq, Repr

/-- The value that a hook on `cpu` makes of the one that it has read from `HOST_CPU_WAKEUP`. -/
def Hook.value (cpu : Fin n) (val : BitVec 32) : Hook n → BitVec 32
  | .on target => val ||| bit target
  | .off | .systemOff => val &&& ~~~ bit cpu

/-- The CPU that a call on `cpu` concerns. -/
def Hook.concerns (cpu : Fin n) : Hook n → Fin n
  | .on target => target
  | .off | .systemOff => cpu

def Hook.isOn : Hook n → Bool
  | .on _ => true
  | .off | .systemOff => false

/-- Where a CPU is. -/
inductive Pc (n : Nat)
  /-- Powered down, or in the final `wfi`. -/
  | down
  | running
  /-- In `ensemble_pwr_domain_on`, about to read or to write `HOST_CPU_BOOT_MSK`. -/
  | readBootMsk (target : Fin n)
  | writeBootMsk (target : Fin n) (val : BitVec 32)
  /-- In a hook, about to read or to write `HOST_CPU_WAKEUP`. -/
  | readWakeup (hook : Hook n)
  | writeWakeup (hook : Hook n) (val : BitVec 32)
  /-- The hook has returned; about to release its lock. -/
  | leave (hook : Hook n)
  /-- In `psci_do_cpu_off`, about to write `AFF_STATE_OFF`. -/
  | setOff
  deriving DecidableEq, Repr

structure State (n : Nat) where
  bootMsk : BitVec 32
  wakeup : BitVec 32
  /-- `secondary_cpu_flags`, at any index of 32 bits. -/
  secondaryCpuFlags : BitVec 32 → BitVec 32
  affInfoState : Fin n → AffInfoState
  cpuLock : Fin n → Bool
  /-- Who has the locks of the power domains. -/
  domainLock : Option (Fin n)
  pc : Fin n → Pc n
  /-- Whether the last completed call that concerned a CPU was a power-on. -/
  last : Fin n → Option Bool

/-- One CPU is running, and the others are off. -/
def State.init (primary : Fin n) (wakeup : BitVec 32) : State n where
  bootMsk := 0
  wakeup := wakeup
  secondaryCpuFlags _ := 0
  affInfoState cpu := if cpu = primary then .on else .off
  cpuLock _ := false
  domainLock := none
  pc cpu := if cpu = primary then .running else .down
  last _ := none

inductive Event (n : Nat)
  | cpuOn (cpu target : Fin n)
  | cpuOff (cpu : Fin n)
  | systemOff (cpu : Fin n)
  /-- A CPU whose bit is set comes up, as far as `AFF_STATE_ON`. -/
  | boot (cpu : Fin n)
  /-- The next access of a CPU. -/
  | advance (cpu : Fin n)
  deriving DecidableEq, Repr

def State.goto (s : State n) (cpu : Fin n) (pc : Pc n) : State n :=
  { s with pc := update s.pc cpu pc }

/-- The next access of a CPU. The write to `HOST_CPU_WAKEUP` completes the call. -/
def State.advance (s : State n) (cpu : Fin n) : Option (State n) :=
  match s.pc cpu with
  | .down | .running => none
  | .readBootMsk target => some (s.goto cpu (.writeBootMsk target s.bootMsk))
  | .writeBootMsk target val =>
    some ({ s with bootMsk := val ||| bit target }.goto cpu (.readWakeup (.on target)))
  | .readWakeup hook => some (s.goto cpu (.writeWakeup hook s.wakeup))
  | .writeWakeup hook val =>
    some ({ s with
      wakeup := hook.value cpu val
      last := update s.last (hook.concerns cpu) (some hook.isOn) }.goto cpu (.leave hook))
  | .leave (.on target) =>
    some ({ s with cpuLock := update s.cpuLock target false }.goto cpu .running)
  | .leave .off => some ({ s with domainLock := none }.goto cpu .setOff)
  | .leave .systemOff => some (s.goto cpu .down)
  | .setOff =>
    some ({ s with affInfoState := update s.affInfoState cpu .off }.goto cpu .down)

def step (s : State n) : Event n → Option (State n)
  | .cpuOn cpu target =>
    if s.pc cpu = .running ∧ s.cpuLock target = false then
      -- `cpu_on_validate_state` refuses a target that is not off.
      if s.affInfoState target = .off then
        some ({ s with
          cpuLock := update s.cpuLock target true
          affInfoState := update s.affInfoState target .onPending
          secondaryCpuFlags := update s.secondaryCpuFlags
            (BitVec.ofNat 32 target.val - 1) 0x000ADD }.goto cpu (.readBootMsk target))
      else some s
    else none
  | .cpuOff cpu =>
    if s.pc cpu = .running ∧ s.domainLock = none then
      some ({ s with domainLock := some cpu }.goto cpu (.readWakeup .off))
    else none
  | .systemOff cpu =>
    if s.pc cpu = .running then some (s.goto cpu (.readWakeup .systemOff)) else none
  | .boot cpu =>
    -- `psci_warmboot_entrypoint` takes the locks of the domains, and that of the CPU.
    if s.pc cpu = .down ∧ s.wakeup.getLsbD cpu ∧ s.affInfoState cpu = .onPending ∧
        s.cpuLock cpu = false ∧ s.domainLock = none then
      some ({ s with affInfoState := update s.affInfoState cpu .on }.goto cpu .running)
    else none
  | .advance cpu => s.advance cpu

/-! ### The condition -/

/-- The hook that is about to read `HOST_CPU_WAKEUP`, -/
def Pc.reads : Pc n → Option (Hook n)
  | .readWakeup hook => some hook
  | _ => none

/-- and the one that is about to write what it has made of it. -/
def Pc.writes : Pc n → Option (Hook n)
  | .writeWakeup hook _ => some hook
  | _ => none

/-- `HOST_CPU_WAKEUP` is not read by a hook while another one is about to write it, unless both are
under the locks of the power domains. -/
def Apart (s : State n) : Event n → Prop
  | .advance cpu => ∀ hook ∈ (s.pc cpu).reads, ∀ cpu', ∀ hook' ∈ (s.pc cpu').writes,
      hook = .off ∧ hook' = .off
  | .cpuOn _ _ | .cpuOff _ | .systemOff _ | .boot _ => True

instance (s : State n) : (e : Event n) → Decidable (Apart s e)
  | .advance cpu => inferInstanceAs (Decidable (∀ hook ∈ (s.pc cpu).reads, ∀ _, _))
  | .cpuOn _ _ | .cpuOff _ | .systemOff _ | .boot _ => inferInstanceAs (Decidable True)

/-! ### The invariant -/

theorem getLsbD_bit (hn : n ≤ 32) (cpu c : Fin n) : (bit cpu).getLsbD c = decide (c = cpu) := by
  rw [bit, getLsbD_shiftLeft, getLsbD_one, Bool.eq_iff_iff]
  simp only [Bool.and_eq_true, Bool.not_eq_true', decide_eq_true_eq, decide_eq_false_iff_not,
    Fin.ext_iff]
  omega

theorem Hook.getLsbD_value (hn : n ≤ 32) (hook : Hook n) (cpu c : Fin n) (val : BitVec 32) :
    (hook.value cpu val).getLsbD c =
      if c = hook.concerns cpu then hook.isOn else val.getLsbD c := by
  have hc : c.val < 32 := by omega
  cases hook with
  | on target =>
    rw [Hook.value, getLsbD_or, getLsbD_bit hn, Hook.concerns, Hook.isOn]
    by_cases h : c = target <;> simp [h]
  | _ =>
    rw [Hook.value, getLsbD_and, getLsbD_not, getLsbD_bit hn, Hook.concerns,
      Hook.isOn]
    by_cases h : c = cpu <;> simp [h, hc]

/-- The CPU has the locks of the power domains. -/
def Pc.Locked (pc : Pc n) : Prop := pc.reads = some .off ∨ pc.writes = some .off ∨ pc = .leave .off

structure Inv (w : BitVec 32) (s : State n) : Prop where
  bits : ∀ c : Fin n, s.wakeup.getLsbD c = (s.last c).getD (w.getLsbD c)
  /-- Between the read and the write of a hook the register does not change, -/
  kept : ∀ c hook val, s.pc c = .writeWakeup hook val → val = s.wakeup
  /-- as no other hook is there. -/
  alone : ∀ c c', (s.pc c).writes ≠ none → (s.pc c').writes ≠ none → c = c'
  locked : ∀ c, (s.pc c).Locked → s.domainLock = some c

variable {w : BitVec 32} {s s' : State n} {cpu : Fin n} {pc : Pc n}

theorem inv_init (primary : Fin n) : Inv w (State.init primary w) := by
  have hidle : ∀ c,
      (State.init primary w).pc c = .running ∨ (State.init primary w).pc c = .down := by
    intro c
    by_cases hc : c = primary <;> simp [State.init, hc]
  refine ⟨fun c => rfl, fun c hook val hpc => ?_, fun c _ hc => ?_, fun c hc => ?_⟩
  · rcases hidle c with h | h <;> simp [h] at hpc
  · rcases hidle c with h | h <;> simp [h, Pc.writes] at hc
  · rcases hidle c with h | h <;> simp [h, Pc.Locked, Pc.reads, Pc.writes] at hc

/-- **A CPU goes on**, without the register. -/
theorem Inv.goto (h : Inv w s) (hwr : pc.writes = none) (hwk : s'.wakeup = s.wakeup)
    (hlast : s'.last = s.last) (hpc : s'.pc = s.pc)
    (hloc : ∀ c, (update s.pc cpu pc c).Locked → s'.domainLock = some c) :
    Inv w (s'.goto cpu pc) := by
  have hkept : ∀ c, (update s.pc cpu pc c).writes ≠ none →
      update s.pc cpu pc c = s.pc c := by
    intro c hc
    obtain rfl | hne := eq_or_ne c cpu
    · simp [hwr] at hc
    · rw [update_of_ne hne]
  refine ⟨fun c => ?_, fun c hook val hc => ?_, fun c c' hc hc' => ?_, fun c hc => ?_⟩
  · simpa only [State.goto, hwk, hlast] using h.bits c
  · simp only [State.goto, hpc, hwk] at hc ⊢
    rw [hkept c (by simp [hc, Pc.writes])] at hc
    exact h.kept c hook val hc
  · simp only [State.goto, hpc] at hc hc'
    rw [hkept c hc] at hc
    rw [hkept c' hc'] at hc'
    exact h.alone c c' hc hc'
  · simp only [State.goto, hpc] at hc
    exact hloc c hc

theorem Inv.locked_goto (h : Inv w s) (hpc : pc.Locked → (s.pc cpu).Locked) (c : Fin n)
    (hc : (update s.pc cpu pc c).Locked) : s.domainLock = some c := by
  obtain rfl | hne := eq_or_ne c cpu
  · rw [update_self] at hc
    exact h.locked c (hpc hc)
  · rw [update_of_ne hne] at hc
    exact h.locked c hc

attribute [local simp] Pc.Locked Pc.reads Pc.writes

theorem Inv.advance (h : Inv w s) (hn : n ≤ 32) (hap : Apart s (.advance cpu))
    (hstep : s.advance cpu = some s') : Inv w s' := by
  unfold State.advance at hstep
  split at hstep
  case h_1 | h_2 => cases hstep
  case h_3 target hpc | h_4 target val hpc | h_7 target hpc | h_9 hpc | h_10 hpc =>
    cases hstep
    exact h.goto rfl rfl rfl rfl (h.locked_goto (by simp))
  case h_5 hook hpc =>
    -- The register is read.
    cases hstep
    have hnone : ∀ c, (s.pc c).writes = none := by
      intro c
      by_contra hc
      obtain ⟨hook', hhook'⟩ := ne_none_iff_exists'.mp hc
      obtain ⟨rfl, rfl⟩ := hap hook (by simp [hpc]) c hook' hhook'
      have hcpu := h.locked cpu (by simp [hpc])
      cases hcpu.symm.trans (h.locked c (.inr (.inl hhook')))
      simp [hpc] at hhook'
    have hself : ∀ c, (update s.pc cpu (.writeWakeup hook s.wakeup) c).writes ≠ none →
        c = cpu := by
      intro c hc
      by_contra hne
      rw [update_of_ne hne] at hc
      exact hc (hnone c)
    refine ⟨h.bits, fun c hook' val hc => ?_, fun c c' hc hc' => ?_, fun c hc => ?_⟩
    · simp only [State.goto] at hc
      obtain rfl := hself c (by simp [hc])
      rw [update_self] at hc
      exact (Pc.writeWakeup.inj hc).2.symm
    · exact (hself c hc).trans (hself c' hc').symm
    · exact h.locked_goto (by simp [hpc]) c hc
  case h_6 hook val hpc =>
    -- The register is written.
    cases hstep
    obtain rfl := h.kept cpu hook val hpc
    have hoth : ∀ c, (update s.pc cpu (.leave hook) c).writes = none := by
      intro c
      obtain rfl | hne := eq_or_ne c cpu
      · simp
      · rw [update_of_ne hne]
        by_contra hc
        exact hne (h.alone c cpu hc (by simp [hpc]))
    refine ⟨fun c => ?_, fun c hook' val hc => ?_, fun c _ hc => ?_, fun c hc => ?_⟩
    · simp only [State.goto, hook.getLsbD_value hn]
      by_cases hc : c = hook.concerns cpu
      · simp [hc]
      · rw [if_neg hc, update_of_ne hc]
        exact h.bits c
    · have := hoth c
      simp only [State.goto] at hc
      simp [hc] at this
    · exact absurd (hoth c) hc
    · exact h.locked_goto (by simp [hpc]) c hc
  case h_8 hpc =>
    -- The locks of the domains are released by the CPU that has them.
    cases hstep
    have hcpu := h.locked cpu (by simp [hpc])
    refine h.goto rfl rfl rfl rfl fun c hc => ?_
    cases hcpu.symm.trans (h.locked_goto (by simp) c hc)
    simp at hc

/-- **One step.** -/
theorem Inv.step (h : Inv w s) (hn : n ≤ 32) {e : Event n} (hap : Apart s e)
    (hstep : step s e = some s') : Inv w s' := by
  cases e with
  | cpuOn =>
    simp only [Wakeup.step] at hstep
    split_ifs at hstep
    · cases hstep
      exact h.goto rfl rfl rfl rfl (h.locked_goto (by simp))
    · cases hstep
      exact h
  | cpuOff cpu =>
    obtain ⟨⟨-, hfree⟩, hs⟩ := ite_none_right_eq_some.mp hstep
    cases hs
    refine h.goto rfl rfl rfl rfl fun c hc => ?_
    obtain rfl | hne := eq_or_ne c cpu
    · rfl
    · rw [update_of_ne hne] at hc
      exact absurd (h.locked c hc) (by simp [hfree])
  | systemOff | boot =>
    obtain ⟨-, hs⟩ := ite_none_right_eq_some.mp hstep
    cases hs
    exact h.goto rfl rfl rfl rfl (h.locked_goto (by simp))
  | advance => exact h.advance hn hap hstep

/-! ### Runs -/

/-- No hook is in progress. -/
def State.Finished (s : State n) : Prop := ∀ cpu, s.pc cpu = .running ∨ s.pc cpu = .down

instance (s : State n) : Decidable s.Finished := inferInstanceAs (Decidable (∀ _, _))

/-- The bit of every CPU is what the last call made it that concerned this CPU. -/
def State.Kept (w : BitVec 32) (s : State n) : Prop :=
  ∀ c : Fin n, s.wakeup.getLsbD c = (s.last c).getD (w.getLsbD c)

/-- **No update is lost**, in any run in which `HOST_CPU_WAKEUP` is not read by a hook while another
one is about to write it, if they are not both under the locks of the power domains. -/
theorem wakeup_bits_kept (hn : n ≤ 32) (primary : Fin n) (w : BitVec 32) {events : List (Event n)}
    (hapart : Along step Apart (State.init primary w) events) {s : State n}
    (hrun : run step (State.init primary w) events = some s) : s.Kept w := by
  have hinv : Inv w s := run_invariant_along (fun _ _ _ h hok hstep => h.step hn hok hstep)
    (inv_init primary) hapart hrun
  exact hinv.bits

/-- The first CPU turns the second one on, which comes up. -/
def bothOn : List (Event 2) :=
  [.cpuOn 0 1, .advance 0, .advance 0, .advance 0, .advance 0, .advance 0, .boot 1]

/-- Then the second one turns itself off, and the first one the system. -/
def offInTurn : List (Event 2) :=
  bothOn ++ [.cpuOff 1, .advance 1, .advance 1, .advance 1, .advance 1, .systemOff 0, .advance 0,
    .advance 0, .advance 0]

theorem wakeup_bits_kept_two :
    ∃ s, run step (State.init 0 1) offInTurn = some s ∧ s.Finished ∧ s.last 1 = some false ∧
      s.Kept 1 := by
  refine exists_some_imp (q := fun s => s.Finished ∧ s.last 1 = some false) (by decide +kernel)
    fun s hrun ⟨hfin, hlast⟩ => ⟨hfin, hlast, ?_⟩
  exact wakeup_bits_kept (by decide) 0 1 (by decide +kernel) hrun

/-- The first CPU turns the system off, and the second one itself: the bit of the second one is
cleared, and set again. With a third CPU this happens when one CPU is turned on while another one
turns itself off. -/
theorem wakeup_update_lost :
    (∃ s, run step (State.init 0 1) (bothOn ++ [.systemOff 0, .advance 0, .cpuOff 1, .advance 1,
        .advance 1, .advance 1, .advance 1, .advance 0, .advance 0]) = some s ∧
      s.Finished ∧ s.last 1 = some false ∧ s.wakeup.getLsbD 1 = true) ∧
    ∃ s : State 3, run step (State.init 0 1) [.cpuOn 0 2, .advance 0, .advance 0, .advance 0,
        .advance 0, .advance 0, .boot 2, .cpuOn 0 1, .advance 0, .advance 0, .advance 0, .cpuOff 2,
        .advance 2, .advance 2, .advance 2, .advance 2, .advance 0, .advance 0] = some s ∧
      s.Finished ∧ s.last 2 = some false ∧ s.wakeup.getLsbD 2 = true := by
  constructor <;> decide +kernel

end TrustedFirmware.DevkitE7.Wakeup
