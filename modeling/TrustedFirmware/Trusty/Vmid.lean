import TrustedFirmware.Lib.Run

/-!
# SMCs of guests to Trusty (`trusty.c`), with a hypervisor

`current_vmid` keeps the SMCs of other guests out while one is forwarded, but it is read and written
by all CPUs without a lock, and the first SMC to return clears it for all of them. The SMCs for FIQs
do not use it.
-/

namespace TrustedFirmware.Trusty

open Lib Function

/-- Where a CPU is in `trusty_smc_handler`, with the VM identifier. -/
inductive Pc
  | idle
  /-- `current_vmid` has been looked at. -/
  | checked (vmid : BitVec 32)
  /-- Between setting `current_vmid` and the return of `trusty_context_switch`. -/
  | forwarded (vmid : BitVec 32)
  deriving DecidableEq

variable {C : Type} [DecidableEq C]

structure State (C : Type) where
  currentVmid : BitVec 32
  pc : C → Pc

inductive Event (C : Type)
  /-- An SMC arrives, and is answered `SM_ERR_BUSY` or goes on. -/
  | smc (cpu : C) (vmid : BitVec 32) (hvmid : vmid ≠ 0)
  | forward (cpu : C)
  | return (cpu : C)

/-- The SMC of a guest would be answered `SM_ERR_BUSY`. -/
def State.busy (s : State C) (vmid : BitVec 32) : Bool :=
  s.currentVmid ≠ 0 ∧ s.currentVmid ≠ vmid

/-- The default case of `trusty_smc_handler`. -/
def State.step (s : State C) : Event C → Option (State C)
  | .smc cpu vmid _ =>
    if s.pc cpu ≠ .idle then none
    else if s.busy vmid then some s
    else some { s with pc := update s.pc cpu (.checked vmid) }
  | .forward cpu =>
    match s.pc cpu with
    | .checked vmid => some ⟨vmid, update s.pc cpu (.forwarded vmid)⟩
    | _ => none
  | .return cpu =>
    match s.pc cpu with
    | .forwarded _ => some ⟨0, update s.pc cpu .idle⟩
    | _ => none

def State.boot : State C := ⟨0, fun _ => .idle⟩

/-- What has to hold of `current_vmid`. -/
structure State.Right (s : State C) : Prop where
  same : ∀ c c' v v', s.pc c = .forwarded v → s.pc c' = .forwarded v' → v = v'
  busy : ∀ vmid, s.busy vmid = true → ∃ c v, s.pc c = .forwarded v ∧ v ≠ vmid
  zero : s.currentVmid = 0 ↔ ∀ c v, s.pc c ≠ .forwarded v

/-- No other SMC has been checked and not yet forwarded, and none of this guest is in progress. -/
def Alone (s : State C) : Event C → Prop
  | .smc _ vmid _ => ∀ c, s.pc c ≠ .forwarded vmid ∧ ∀ v, s.pc c ≠ .checked v
  | .forward _ | .return _ => True

/-- The states of a run in which one SMC is served at a time. -/
inductive State.OneServed : State C → Prop
  | idle : OneServed ⟨0, fun _ => .idle⟩
  | checked (cpu : C) {v : BitVec 32} : v ≠ 0 →
      OneServed ⟨0, update (fun _ => .idle) cpu (.checked v)⟩
  | forwarded (cpu : C) {v : BitVec 32} : v ≠ 0 →
      OneServed ⟨v, update (fun _ => .idle) cpu (.forwarded v)⟩

variable {s s' : State C} {e : Event C}

theorem State.OneServed.step (h : s.OneServed) (hok : Alone s e) (hs : s.step e = some s') :
    s'.OneServed := by
  cases e with
  | smc cpu vmid hvmid =>
    cases h with
    | idle =>
      cases hs
      exact .checked cpu hvmid
    | @checked cpu' v => simpa using (hok cpu').2 v
    | @forwarded cpu' v hv =>
      have hne : v ≠ vmid := by simpa using (hok cpu').1
      simp only [State.step, busy, ne_eq, hv, hne] at hs
      split_ifs at hs with hidle hbusy
      · cases hs
        exact .forwarded cpu' hv
      · simp at hbusy
  | forward cpu =>
    cases h with
    | idle => cases hs
    | @checked cpu' v hv =>
      by_cases hc : cpu = cpu' <;> simp [State.step, hc] at hs
      exact hs ▸ .forwarded cpu' hv
    | @forwarded cpu' => by_cases hc : cpu = cpu' <;> simp [State.step, hc] at hs
  | «return» cpu =>
    cases h with
    | idle => cases hs
    | @checked cpu' => by_cases hc : cpu = cpu' <;> simp [State.step, hc] at hs
    | @forwarded cpu' v =>
      by_cases hc : cpu = cpu' <;> simp [State.step, hc] at hs
      exact hs ▸ .idle

theorem State.OneServed.right (h : s.OneServed) : s.Right := by
  cases h with
  | idle => exact ⟨by simp, by simp [busy], by simp⟩
  | checked =>
    exact ⟨by simp [update_apply, ite_eq_iff], by simp [busy], by simp [update_apply, ite_eq_iff]⟩
  | @forwarded cpu v hv =>
    have hcpu : update (fun _ => Pc.idle) cpu (.forwarded v) cpu = .forwarded v := update_self ..
    refine ⟨fun c c' w w' hw hw' => ?_, fun vmid hbusy => ⟨cpu, v, hcpu, ?_⟩, ?_⟩
    · simp [update_apply, ite_eq_iff] at hw hw'
      exact hw.2.symm.trans hw'.2
    · exact (of_decide_eq_true hbusy).2
    · exact iff_of_false hv fun hno => hno cpu v hcpu

/-- **Guests are kept apart** in every run in which an SMC arrives only while no other one of its
guest is in progress, and none is between the check and the store. -/
theorem vmid_right_along (es : List (Event C)) (hok : Along State.step Alone State.boot es)
    (hrun : run State.step State.boot es = some s) : s.Right :=
  (run_invariant_along (fun _ _ _ => State.OneServed.step) .idle hok hrun).right

/-- Guest 2 is answered `SM_ERR_BUSY` while guest 1 is served, and served after it. -/
def twoGuests : List (Event (Fin 2)) :=
  [.smc 0 1 (by decide), .forward 0, .smc 1 2 (by decide), .return 0, .smc 1 2 (by decide),
    .forward 1]

theorem vmid_right_two : ∃ s, run State.step .boot twoGuests = some s ∧
    s.pc 0 = .idle ∧ s.pc 1 = .forwarded 2 ∧ s.Right := by
  refine ⟨_, rfl, rfl, rfl, vmid_right_along twoGuests ?_ rfl⟩
  refine ⟨by simp [Alone, State.boot], fun _ h => ⟨trivial, ?_⟩⟩
  cases h
  intro _ h
  cases h
  refine ⟨by simp [Alone, State.boot, Fin.forall_fin_two], fun _ h => ?_⟩
  cases h
  refine ⟨trivial, fun _ h => ?_⟩
  cases h
  exact ⟨by simp [Alone, State.boot], fun _ _ => ⟨trivial, fun _ _ => trivial⟩⟩

/-- Two CPUs of guest 1 are in Trusty. The first one returns and lets guest 2 in. -/
theorem two_guests_served : ∃ s, run State.step (.boot : State (Fin 2))
    [.smc 0 1 (by decide), .forward 0, .smc 1 1 (by decide), .forward 1, .return 0,
      .smc 0 2 (by decide), .forward 0] = some s ∧
    s.pc 0 = .forwarded 2 ∧ s.pc 1 = .forwarded 1 := by
  decide

end TrustedFirmware.Trusty
