import TrustedFirmware.Psci.PowerTree

/-!
# The power states of a running system

On a power-domain tree, every step of the system (a CPU turned on or off, suspended,
woken up) is a vote of one CPU, after which the domains are again in the states that the
votes make them. The invariant `TreeInv` says this of the domains and, for each CPU,
which votes go with where it is.

`Effect` is the same step as `psci_stat.c` sees it: which domains change, and what the
call that the step makes is told about them.
-/

namespace TrustedFirmware.Psci.Domains

open Lib Option PowerTree State
open Function (update update_self update_of_ne)

variable {cfg : Config} {T : PowerTree cfg} {s s' : State cfg}

/-! ### The invariant -/

variable (T) in
/-- The domains are in the states that the votes make them, and the votes of every CPU
are those that go with where it is. -/
structure TreeInv (s : State cfg) : Prop where
  coordinated : Coordinated T s
  cpus : ∀ c < cfg.platformCoreCount, CpuOk (s.cpu c) (s.req · c) (s.pos c)

theorem TreeInv.staircase (h : TreeInv T s) : Staircase s.req :=
  fun c hc => (h.cpus c hc).votesUpTo

variable {c e : Nat} {d : CpuData cfg} {p : Position} {r : State cfg × StatsCall cfg}
  {info : StateInfo cfg}

/-- One CPU votes, and gets somewhere: the invariant asks only that what it has voted for
is what goes with where it gets. -/
theorem TreeInv.voted {f : StateInfo cfg} (h : TreeInv T s) (hv : Voted T s s' c e f)
    (hcpu : s'.cpu = update s.cpu c d) (hpos : s'.pos = update s.pos c p)
    (hok : CpuOk d (castVotes s.req c e f · c) p) :
    TreeInv T s' := by
  refine ⟨h.coordinated.voted hv, fun c' hc' => ?_⟩
  rw [hcpu, hpos, hv.req]
  obtain rfl | hne := eq_or_ne c' c
  · rw [update_self, update_self]
    exact hok
  · rw [update_of_ne hne, update_of_ne hne]
    simp only [castVotes_of_ne hne]
    exact h.cpus c' hc'

/-- A CPU gets somewhere without a vote. -/
theorem TreeInv.moved (h : TreeInv T s) (hreq : s'.req = s.req)
    (hlocal : s'.localState = s.localState) (hcpu : s'.cpu = update s.cpu c d)
    (hpos : s'.pos = update s.pos c p) (hok : CpuOk d (s.req · c) p) : TreeInv T s' :=
  h.voted (f := fun _ => localStateRun cfg) (Voted.refl hreq hlocal) hcpu hpos (by simpa using hok)

/-- What goes with where a CPU is. -/
theorem TreeInv.cpu (h : TreeInv T s) (hc : c < cfg.platformCoreCount) (hpos : s.pos c = p) :
    CpuOk (s.cpu c) (s.req · c) p :=
  hpos ▸ h.cpus c hc

variable (T) in
/-- What a step does to the domains, and what `psci_stat.c` is told of it. -/
inductive Effect (s s' : State cfg) : StatsCall cfg → Prop
  /-- The domains stay as they are. -/
  | none (hlocal : s'.localState = s.localState) : Effect s s' .none
  /-- A running CPU goes down. -/
  | down {c e : Nat} {info : StateInfo cfg} (hc : c < cfg.platformCoreCount)
      (he : e ≤ cfg.platMaxPwrLvl) (hrun : s.pos c = .running)
      (houtside : ∀ n, n ∉ T.above c e → s'.localState n = s.localState n)
      (hinfo : ∀ i < e, info (i + 1) = s'.localState (T.ancestor c i)) :
      Effect s s' (.down c e info)
  /-- A CPU comes up from `info`. -/
  | up {c e : Nat} {info : StateInfo cfg} (hc : c < cfg.platformCoreCount)
      (he : e ≤ cfg.platMaxPwrLvl) (hzero : info 0 ≠ localStateRun cfg)
      (hinfo : ∀ i < e, info (i + 1) = s.localState (T.ancestor c i))
      (houtside : ∀ n, n ∉ T.above c e → s'.localState n = s.localState n)
      (hinside : ∀ i < e, s'.localState (T.ancestor c i) = localStateRun cfg) :
      Effect s s' (.up c e info)

/-- A CPU is not off any more only when it runs. -/
def BootsRunning (s s' : State cfg) : Prop :=
  ∀ c, s'.pos c ≠ .off → s.pos c ≠ .off ∨ s'.pos c = .running

theorem bootsRunning_update (hpos : s'.pos = update s.pos c p)
    (hp : s.pos c ≠ .off ∨ p = .running ∨ p = .off) : BootsRunning s s' := by
  intro c' hc'
  rw [hpos] at hc' ⊢
  obtain rfl | hne := eq_or_ne c' c
  · rw [update_self] at hc' ⊢
    rcases hp with hp | hp | hp
    · exact .inl hp
    · exact .inr hp
    · exact absurd hp hc'
  · rw [update_of_ne hne] at hc'
    exact .inl hc'

variable (T) in
/-- What a step comes to. -/
structure StepOk (s s' : State cfg) (call : StatsCall cfg) : Prop where
  inv : TreeInv T s'
  effect : Effect T s s' call
  boots : BootsRunning s s'

theorem TreeInv.stay (h : TreeInv T s) : StepOk T s s .none :=
  ⟨h, .none rfl, fun _ hc => .inl hc⟩

/-! ### CPUs that come up -/

theorem psciSetPwrDomainsToRun_cpu (c : Nat) (nodes : List Nat) (s : State cfg) :
    (psciSetPwrDomainsToRun c nodes s).cpu = update s.cpu c
      { s.cpu c with affInfoState := .on, localState := localStateRun cfg } := by
  simp [psciSetPwrDomainsToRun, setCpu, setDomainsToRun_eq]

theorem psciSetPwrDomainsToRun_pos (c : Nat) (nodes : List Nat) (s : State cfg) :
    (psciSetPwrDomainsToRun c nodes s).pos = s.pos := by
  simp [psciSetPwrDomainsToRun, setCpu, setDomainsToRun_eq]

theorem psciSetPwrDomainsToRun_localState {n : Nat} :
    (psciSetPwrDomainsToRun c (T.above c e) s).localState n =
      if n ∈ T.above c e then localStateRun cfg else s.localState n := by
  simp [psciSetPwrDomainsToRun, setCpu, setDomainsToRun_eq]

theorem psciGetTargetLocalPwrStates_succ {i : Nat} (hi : i < e) :
    psciGetTargetLocalPwrStates c (T.above c e) s (i + 1) = s.localState (T.ancestor c i) := by
  simp [psciGetTargetLocalPwrStates, above, hi]

/-- A CPU that has come up as far as it had gone down votes for `RUN` at every level. -/
theorem VotesUpTo.castVotes_run {v : Votes cfg} (h : VotesUpTo (v · c) e) :
    VotesUpTo (castVotes v c e (fun _ => localStateRun cfg) · c) 0 := by
  refine ⟨fun l hl hle => absurd hle (by omega), fun l hl hmax => ?_⟩
  by_cases hle : l ≤ e
  · exact castVotes_of_le hl hle
  · exact (castVotes_of_lt (by omega)).trans (h.2 l (by omega) hmax)

section

variable (h : TreeInv T s) (hc : c < cfg.platformCoreCount)
include h hc

/-- A CPU comes up: it calls `psci_set_pwr_domains_to_run` for the levels up to which it
had gone down, on a state `s₁` in which only its own data may have changed. -/
theorem TreeInv.comeUp {s₁ : State cfg} (he : e ≤ cfg.platMaxPwrLvl) (hs₁ : s₁ = s.setCpu c d)
    (htgt : d.targetPwrlvl = invalidPwrLvl cfg) (hvot : VotesUpTo (s.req · c) e)
    (hlocal : (s.cpu c).localState ≠ localStateRun cfg) :
    StepOk T s ((psciSetPwrDomainsToRun c (T.above c e) s₁).goto c .running)
      (.up c e (psciGetTargetLocalPwrStates c (T.above c e) s)) := by
  subst hs₁
  have hv := psciSetPwrDomainsToRun_voted (T := T) (s := s.setCpu c d) hc he
  have hpos : ((psciSetPwrDomainsToRun c (T.above c e) (s.setCpu c d)).goto c .running).pos =
      update s.pos c .running := by
    simp only [goto, psciSetPwrDomainsToRun_pos, setCpu]
  refine ⟨?_, .up hc he hlocal (fun i hi => psciGetTargetLocalPwrStates_succ hi)
    hv.outside fun i hi => ?_, bootsRunning_update hpos (.inr (.inl rfl))⟩
  · refine h.voted (d := { d with affInfoState := .on, localState := localStateRun cfg })
      ⟨hv.req, hv.inside, hv.outside⟩ ?_ hpos ?_
    · simp [goto, psciSetPwrDomainsToRun_cpu, setCpu]
    · exact ⟨rfl, htgt, rfl, hvot.castVotes_run⟩
  · exact psciSetPwrDomainsToRun_localState.trans (if_pos (mem_above.mpr ⟨i, hi, rfl⟩))

/-- `psci_warmboot_entrypoint`, of a CPU that was turned on or that was suspended. -/
theorem TreeInv.psciWarmbootEntrypoint (hpos : s.pos c = .off ∨ s.pos c = .suspended)
    (hr : psciWarmbootEntrypoint T.toTree c s = some r) :
    StepOk T s r.1 r.2 := by
  rw [Domains.psciWarmbootEntrypoint, ite_none_left_eq_some] at hr
  obtain ⟨haff, hr⟩ := hr
  rcases hpos with hpos | hpos
  · obtain ⟨hon, htgt, hlocal, hvot⟩ := h.cpu hc hpos
    have hpend : (s.cpu c).affInfoState = .onPending := by
      cases haff' : (s.cpu c).affInfoState with
      | on => exact absurd haff' hon
      | off => exact absurd haff' haff
      | onPending => rfl
    have hend : getPowerOnTargetPwrlvl s c = cfg.platMaxPwrLvl := if_pos htgt
    obtain ⟨nodes, hnod, hr⟩ := bind_eq_some_iff.mp hr
    rw [hend, psciGetParentPwrDomainNodes_eq hc le_rfl] at hnod
    cases hnod
    obtain ⟨s₁, hfin, hr⟩ := bind_eq_some_iff.mp hr
    cases hr
    rw [warmbootFinish, if_pos hpend] at hfin
    cases hfin
    rw [hend]
    refine h.comeUp hc le_rfl ?_ htgt (votesUpTo_max hvot) ?_
    · simp [setCpu]
    · rw [hlocal]
      exact maxOffState_ne_run
  · obtain ⟨hon, htgt, hlocal, hvot⟩ := h.cpu hc hpos
    have hend : getPowerOnTargetPwrlvl s c = (s.cpu c).targetPwrlvl :=
      if_neg (by rw [invalidPwrLvl]; omega)
    obtain ⟨nodes, hnod, hr⟩ := bind_eq_some_iff.mp hr
    rw [hend, psciGetParentPwrDomainNodes_eq hc htgt] at hnod
    cases hnod
    obtain ⟨s₁, hfin, hr⟩ := bind_eq_some_iff.mp hr
    cases hr
    rw [warmbootFinish, if_neg (by rw [hon]; simp), psciCpuSuspendFinish,
      ite_none_right_eq_some] at hfin
    rw [hend]
    exact h.comeUp hc htgt (some.inj hfin.2).symm rfl hvot hlocal

theorem TreeInv.psciSuspendToStandbyFinisher
    (hpos : s.pos c = .retention e) (hr : psciSuspendToStandbyFinisher T.toTree c e s = some r) :
    StepOk T s r.1 r.2 := by
  obtain ⟨-, htgt, hlocal, he, hvot⟩ := h.cpu hc hpos
  rw [Domains.psciSuspendToStandbyFinisher, psciGetParentPwrDomainNodes_eq hc he] at hr
  cases hr
  refine h.comeUp hc he ?_ htgt hvot hlocal
  simp [setCpu]

theorem TreeInv.cpuStandbyFinish (hpos : s.pos c = .standby) :
    StepOk T s (cpuStandbyFinish c s).1 (cpuStandbyFinish c s).2 := by
  obtain ⟨hon, htgt, hlocal, hvot⟩ := h.cpu hc hpos
  exact ⟨h.moved rfl rfl rfl rfl ⟨hon, htgt, rfl, hvot⟩,
    .up hc (Nat.zero_le _) hlocal (fun i hi => absurd hi (Nat.not_lt_zero i)) (fun _ _ => rfl)
      (fun i hi => absurd hi (Nat.not_lt_zero i)),
    bootsRunning_update rfl (.inr (.inl rfl))⟩

/-! ### CPUs that go down -/

/-- A CPU that runs goes down: it asks for the states `info` up to a level, which are
low-power states. -/
theorem TreeInv.goDown {r : StateInfo cfg × State cfg} (he : e ≤ cfg.platMaxPwrLvl)
    (hpos : s.pos c = .running) (hlow : ∀ l, 1 ≤ l → l ≤ e → info l ≠ localStateRun cfg)
    (hr : psciDoStateCoordination T.toTree c (T.above c e) info s = some r)
    (hs' : s'.req = r.2.req ∧ s'.localState = r.2.localState ∧ s'.pos = update r.2.pos c p)
    (hdata : r.2.cpu = update s.cpu c { s.cpu c with localState := info 0 } →
      s'.cpu = update s.cpu c d)
    (hok : VotesUpTo (castVotes s.req c e info · c) e → CpuOk d (castVotes s.req c e info · c) p) :
    StepOk T s s' (.down c e r.1) := by
  have hcpu := h.cpu hc hpos
  have hvot : VotesUpTo (castVotes s.req c e info · c) e := by
    refine ⟨fun l hl hle => ?_, fun l hlt hmax => ?_⟩
    · exact (castVotes_of_le hl hle).trans_ne (hlow l hl hle)
    · exact (castVotes_of_lt hlt).trans (hcpu.2.2.2.2 l (by omega) hmax)
  obtain ⟨hv, hinfo, hcpu', hpos'⟩ :=
    psciDoStateCoordination_voted hc he hr (h.staircase.cast hvot)
  obtain ⟨hreq, hlocal, hp⟩ := hs'
  have hv' : Voted T s s' c e info := by
    refine ⟨hreq.trans hv.req, fun i hi => ?_, fun n hn => ?_⟩
    · rw [hlocal, hreq]
      exact hv.inside i hi
    · rw [hlocal]
      exact hv.outside n hn
  rw [hpos'] at hp
  refine ⟨h.voted hv' (hdata hcpu') hp (hok hvot), .down hc he hpos hv'.outside fun i hi => ?_,
    bootsRunning_update hp (.inl (by rw [hpos]; simp))⟩
  rw [hlocal]
  exact hinfo i hi

theorem TreeInv.psciDoCpuOff {denied : Bool}
    (hpos : s.pos c = .running) (hr : psciDoCpuOff T.toTree c denied s = some r) :
    StepOk T s r.1 r.2 := by
  have hcpu := h.cpu hc hpos
  rw [Domains.psciDoCpuOff, psciGetParentPwrDomainNodes_eq hc le_rfl, bind_eq_bind, bind_some] at hr
  cases denied with
  | true =>
    cases hr
    exact h.stay
  | false =>
    obtain ⟨r', hr', hr⟩ := bind_eq_some_iff.mp hr
    cases hr
    refine h.goDown hc le_rfl hpos
      (fun _ _ _ => maxOffState_ne_run) hr' ⟨rfl, rfl, rfl⟩ (fun hdata => hdata) fun _ => ?_
    exact ⟨hcpu.1, hcpu.2.1, rfl, fun l hl hle => castVotes_of_le hl hle⟩

theorem TreeInv.setAffInfoStateOff (hpos : s.pos c = .turningOff) :
    StepOk T s (setAffInfoStateOff c s) .none := by
  obtain ⟨-, htgt, hlocal, hvot⟩ := h.cpu hc hpos
  exact ⟨h.moved rfl rfl rfl rfl ⟨by simp, htgt, hlocal, hvot⟩, .none rfl,
    bootsRunning_update rfl (.inr (.inr rfl))⟩

theorem TreeInv.psciCpuSuspendStart {isPowerDownState pending : Bool} (hpos : s.pos c = .running)
    (he : e ≤ cfg.platMaxPwrLvl)
    (hzero : info 0 ≠ localStateRun cfg) (hlow : ∀ l, 1 ≤ l → l ≤ e → info l ≠ localStateRun cfg)
    (hr : psciCpuSuspendStart T.toTree c e info isPowerDownState pending s = some r) :
    StepOk T s r.1 r.2 := by
  have hcpu := h.cpu hc hpos
  rw [Domains.psciCpuSuspendStart, psciGetParentPwrDomainNodes_eq hc he,
    bind_eq_bind, bind_some] at hr
  cases pending with
  | true =>
    cases hr
    exact h.stay
  | false =>
    obtain ⟨r', hr', hr⟩ := bind_eq_some_iff.mp hr
    cases hr
    cases isPowerDownState with
    | true =>
      refine h.goDown
        (d := { s.cpu c with localState := info 0, targetPwrlvl := e }) hc he hpos hlow hr'
        ⟨rfl, rfl, rfl⟩ (fun hdata => ?_) fun hvot => ⟨hcpu.1, he, hzero, hvot⟩
      simp only [if_true, goto, setCpu, hdata, update_self, Function.update_idem]
    | false =>
      refine h.goDown hc he hpos hlow hr' ⟨rfl, rfl, rfl⟩ (fun hdata => hdata) fun hvot => ?_
      exact ⟨hcpu.1, hcpu.2.1, hzero, he, hvot⟩

theorem TreeInv.psciCpuSuspend {isPowerDownState pending : Bool} (hpos : s.pos c = .running)
    (hr : psciCpuSuspend T.toTree c info isPowerDownState pending s = some r) :
    StepOk T s r.1 r.2 := by
  rw [Domains.psciCpuSuspend, ite_none_right_eq_some] at hr
  obtain ⟨hval, hr⟩ := hr
  obtain ⟨he, hzero, hvot⟩ := psciValidateSuspendReq_success hval
  by_cases hstb : (!isPowerDownState) = true ∧ psciFindTargetSuspendLvl info = 0
  · rw [if_pos hstb] at hr
    cases hr
    obtain ⟨hon, htgt, -, hvot⟩ := h.cpu hc hpos
    exact ⟨h.moved rfl rfl rfl rfl ⟨hon, htgt, hzero, hvot⟩, .none rfl,
      bootsRunning_update rfl (.inl (by rw [hpos]; simp))⟩
  · rw [if_neg hstb] at hr
    exact h.psciCpuSuspendStart hc hpos he hzero hvot.1 hr

end

/-! ### Steps -/

theorem TreeInv.psciCpuOnStart {ok : Bool} (h : TreeInv T s) (hc : c < cfg.platformCoreCount) :
    StepOk T s (psciCpuOnStart c ok s) .none := by
  rw [Domains.psciCpuOnStart]
  split_ifs with hoff
  · have hpos : s.pos c = .off := by
      cases hp : s.pos c with
      | off => rfl
      | _ => exact absurd ((h.cpu hc hp).1.symm.trans hoff.1) (by simp)
    obtain ⟨-, htgt, hlocal, hvot⟩ := h.cpu hc hpos
    refine ⟨h.moved (p := .off) rfl rfl rfl ?_ ⟨by simp, htgt, hlocal, hvot⟩, .none rfl,
      fun c' hc' => .inl hc'⟩
    rw [← hpos, Function.update_eq_self]
    rfl
  · exact h.stay

/-- **One step.** It keeps the invariant, and its effect on the domains is what
`psci_stat.c` is told. -/
theorem TreeInv.step {e : Event cfg} (h : TreeInv T s) (hr : step T.toTree s e = some r) :
    StepOk T s r.1 r.2 := by
  cases e with
  | cpuOn =>
    obtain ⟨⟨-, htgt, -⟩, hr⟩ := ite_none_right_eq_some.mp hr
    cases hr
    exact h.psciCpuOnStart htgt
  | warmBoot =>
    rw [Domains.step, ite_none_right_eq_some] at hr
    exact h.psciWarmbootEntrypoint hr.1.1 hr.1.2 hr.2
  | cpuOff =>
    rw [Domains.step, ite_none_right_eq_some] at hr
    exact h.psciDoCpuOff hr.1.1 hr.1.2 hr.2
  | setOff =>
    obtain ⟨⟨hc, hpos⟩, hr⟩ := ite_none_right_eq_some.mp hr
    cases hr
    exact h.setAffInfoStateOff hc hpos
  | cpuSuspend =>
    rw [Domains.step, ite_none_right_eq_some] at hr
    exact h.psciCpuSuspend hr.1.1 hr.1.2 hr.2
  | wakeUp c =>
    rw [Domains.step, ite_none_right_eq_some] at hr
    obtain ⟨hc, hr⟩ := hr
    cases hpos : s.pos c with
    | retention =>
      rw [hpos] at hr
      exact h.psciSuspendToStandbyFinisher hc hpos hr
    | standby =>
      rw [hpos] at hr
      cases hr
      exact h.cpuStandbyFinish hc hpos
    | _ =>
      rw [hpos] at hr
      cases hr

section

variable (hlocal : ∀ n < T.numDomains, s.localState n = maxOffState cfg)
  (hcpu : ∀ c < cfg.platformCoreCount, s.cpu c = ⟨.off, invalidPwrLvl cfg, maxOffState cfg⟩)
  (hreq : s.req = fun _ _ => maxOffState cfg) (hpos : ∀ c, s.pos c = .off)
include hlocal hcpu hreq hpos

theorem treeInv_of_off : TreeInv T s := by
  refine ⟨fun n hn => ?_, fun c hc => ?_⟩
  · rw [hlocal n hn, hreq]
    exact (Finset.inf_top _).symm
  · rw [hpos c, hcpu c hc, hreq]
    exact ⟨by simp, rfl, rfl, fun _ _ _ => rfl⟩

/-- The first CPU comes up in a system that is off. -/
theorem treeInv_boot (hc : c < cfg.platformCoreCount) :
    TreeInv T ((psciSetPwrDomainsToRun c (T.above c cfg.platMaxPwrLvl) s).goto c .running) := by
  refine ((treeInv_of_off hlocal hcpu hreq hpos).comeUp (d := s.cpu c) hc le_rfl ?_ ?_ ?_ ?_).inv
  · simp [setCpu]
  · rw [hcpu c hc]
  · rw [hreq]
    exact votesUpTo_max fun _ _ _ => rfl
  · rw [hcpu c hc]
    exact maxOffState_ne_run

end

/-- **Every run** keeps the invariant. -/
theorem TreeInv.run {es : List (Event cfg)} (h : TreeInv T s)
    (hrun : run (next T.toTree) s es = some s') : TreeInv T s' := by
  refine run_invariant (fun s e s' (h : TreeInv T s) hs' => ?_) h hrun
  obtain ⟨r, hr, rfl⟩ := map_eq_some_iff.mp hs'
  exact (h.step hr).inv

/-! ### What the invariant says of the tree -/

/-- What the power states of the `numDomains` domains of a tree, and of its CPUs, have to
do with each other. -/
structure PowerStatesOk (t : Tree) (numDomains : Nat) (s : State cfg) : Prop where
  /-- Every domain is in the minimum of the states that the CPUs below it request. -/
  minimum : ∀ n < numDomains, s.localState n = domainState t s.req n
  /-- A CPU that runs requests `RUN` at every level, and the domains above it run. -/
  running : ∀ c < cfg.platformCoreCount, s.pos c = .running → ∀ i < cfg.platMaxPwrLvl,
    s.req (i + 1) c = localStateRun cfg ∧ s.localState (t.ancestor c i) = localStateRun cfg
  /-- A CPU that is off requests `PLAT_MAX_OFF_STATE` at every level, and has no level to
  resume at. -/
  off : ∀ c < cfg.platformCoreCount, (s.cpu c).affInfoState = .off →
    (∀ l, 1 ≤ l → l ≤ cfg.platMaxPwrLvl → s.req l c = maxOffState cfg) ∧
      (s.cpu c).targetPwrlvl = invalidPwrLvl cfg
  /-- A domain leaves `RUN` only with the domains below it, -/
  childDomain : ∀ n < numDomains, (t.nonCpu n).level < cfg.platMaxPwrLvl →
    s.localState (t.nonCpu n).parentNode ≠ localStateRun cfg → s.localState n ≠ localStateRun cfg
  /-- and with its CPUs. -/
  childCpu : ∀ c < cfg.platformCoreCount, 0 < cfg.platMaxPwrLvl →
    s.localState (t.cpuParent c) ≠ localStateRun cfg → (s.cpu c).localState ≠ localStateRun cfg

/-- The domains above a CPU that asks for `RUN` everywhere run. -/
theorem Coordinated.ancestor_run (h : Coordinated T s) (hc : c < cfg.platformCoreCount)
    (hvot : VotesUpTo (s.req · c) 0) :
    ∀ i < cfg.platMaxPwrLvl, s.localState (T.ancestor c i) = localStateRun cfg := by
  intro i hi
  rw [h _ (T.ancestor_lt c hc i hi)]
  refine domainState_eq_run.mpr ⟨c, (mem_below_ancestor hc hi).mpr ⟨hc, rfl⟩, ?_⟩
  rw [T.level_ancestor c hc i hi]
  exact hvot.2 (i + 1) (by omega) (by omega)

theorem TreeInv.parent_run {n : Nat} (h : TreeInv T s) (hn : n < T.numDomains)
    (hlvl : (T.nonCpu n).level < cfg.platMaxPwrLvl)
    (hrun : s.localState n = localStateRun cfg) :
    s.localState (T.nonCpu n).parentNode = localStateRun cfg := by
  rw [h.coordinated n hn] at hrun
  obtain ⟨c, hbel, -⟩ := domainState_eq_run.mp hrun
  obtain ⟨hc, hanc⟩ := ancestor_of_mem_below hbel
  have hpos := T.level_pos n hn
  rw [← hanc] at hrun
  have hup := h.staircase.domainState_succ hc (by omega) hrun
  rw [Tree.ancestor, hanc] at hup
  rw [h.coordinated _ (T.parent_lt n hn hlvl), hup]

theorem TreeInv.powerStatesOk (h : TreeInv T s) : PowerStatesOk T.toTree T.numDomains s where
  minimum := h.coordinated
  running c hc hpos i hi := by
    have hcpu := h.cpu hc hpos
    exact ⟨hcpu.2.2.2.2 (i + 1) (by omega) (by omega),
      h.coordinated.ancestor_run hc hcpu.2.2.2 i hi⟩
  off c hc hoff := by
    cases hpos : s.pos c with
    | off =>
      have hcpu := h.cpu hc hpos
      exact ⟨hcpu.2.2.2, hcpu.2.1⟩
    | _ => exact absurd ((h.cpu hc hpos).1.symm.trans hoff) (by simp)
  childDomain n hn hlvl hpar hrun := hpar (h.parent_run hn hlvl hrun)
  childCpu c hc hmax hpar hrun := by
    have hcpu := h.cpus c hc
    generalize hpos : s.pos c = v at hcpu
    cases v with
    | off | turningOff =>
      exact maxOffState_ne_run (hcpu.2.2.1.symm.trans hrun)
    | running =>
      exact hpar (h.coordinated.ancestor_run hc hcpu.2.2.2 0 hmax)
    | _ =>
      exact hcpu.2.2.1 hrun

end TrustedFirmware.Psci.Domains
