import TrustedFirmware.Lib.Minimum
import TrustedFirmware.Lib.Run
import TrustedFirmware.Psci.Coordination

/-!
# A power domain is in the shallowest state that a CPU below it asks for

Seen from above, every CPU votes for a state of each domain over it, and the votes alone
determine what every domain is in: a CPU that goes down votes for low-power states up to
some level, a CPU that comes up votes for `RUN`. This module has that view
(`domainState`), the trees for which it makes sense (`PowerTree`), and the proof that
the model of the source keeps to it in every step.

What carries the proof is the shape of the votes: each CPU votes for low-power states
up to some level and for `RUN` above it. So a domain that is kept in `RUN` by one of
its CPUs has only domains in `RUN` above it, which is why the loop of
`psci_do_state_coordination` may stop at the first level that stays in `RUN`.
-/

namespace TrustedFirmware.Psci.Domains

open Lib List Option Function State

variable {cfg : Config}

/-! ### Trees -/

/-- The domain at level `i + 1` above a CPU. -/
def Tree.ancestor (t : Tree) (c : Nat) : (i : Nat) → Nat
  | 0 => t.cpuParent c
  | i + 1 => (t.nonCpu (t.ancestor c i)).parentNode

variable (cfg) in
/-- The CPUs below a domain. -/
def Tree.below (t : Tree) (n : Nat) : Finset Nat :=
  (Finset.range cfg.platformCoreCount).filter
    fun c => ∃ i < cfg.platMaxPwrLvl, t.ancestor c i = n

variable {t : Tree} {n c : Nat}

theorem Tree.mem_below : c ∈ t.below cfg n ↔
      c < cfg.platformCoreCount ∧ ∃ i < cfg.platMaxPwrLvl, t.ancestor c i = n := by
  simp [Tree.below]

/-- A power-domain tree: each domain has its level and, below the roots, a parent at
the next one, and `cpu_start_idx` and `ncpus` delimit the CPUs below it. -/
structure PowerTree (cfg : Config) extends Tree where
  /-- The domains above the CPU level are the indices below this one. -/
  numDomains : Nat
  numDomains_le : numDomains ≤ cfg.psciNumNonCpuPwrDomains
  level_pos : ∀ n < numDomains, 0 < (nonCpu n).level
  level_le : ∀ n < numDomains, (nonCpu n).level ≤ cfg.platMaxPwrLvl
  parent_lt : ∀ n < numDomains, (nonCpu n).level < cfg.platMaxPwrLvl →
    (nonCpu n).parentNode < numDomains
  level_parent : ∀ n < numDomains, (nonCpu n).level < cfg.platMaxPwrLvl →
    (nonCpu (nonCpu n).parentNode).level = (nonCpu n).level + 1
  ancestor_lt : ∀ c < cfg.platformCoreCount, ∀ i < cfg.platMaxPwrLvl,
    toTree.ancestor c i < numDomains
  level_ancestor : ∀ c < cfg.platformCoreCount, ∀ i < cfg.platMaxPwrLvl,
    (nonCpu (toTree.ancestor c i)).level = i + 1
  range_iff : ∀ c < cfg.platformCoreCount, ∀ i < cfg.platMaxPwrLvl, ∀ c',
    ((nonCpu (toTree.ancestor c i)).cpuStartIdx ≤ c' ∧
      c' < (nonCpu (toTree.ancestor c i)).cpuStartIdx + (nonCpu (toTree.ancestor c i)).ncpus) ↔
    (c' < cfg.platformCoreCount ∧ toTree.ancestor c' i = toTree.ancestor c i)

open PowerTree

variable (T : PowerTree cfg)

/-- The domains above a CPU, up to a level. -/
def PowerTree.above (c endPwrlvl : Nat) : List Nat := (range endPwrlvl).map (T.ancestor c)

variable {T}

theorem PowerTree.ancestor_of_mem_below (h : c ∈ T.below cfg n) :
    c < cfg.platformCoreCount ∧ T.ancestor c ((T.nonCpu n).level - 1) = n := by
  obtain ⟨hc, i, hi, rfl⟩ := Tree.mem_below.mp h
  rw [T.level_ancestor c hc i hi]
  exact ⟨hc, rfl⟩

variable {c' i : Nat}

section

variable (hc : c < cfg.platformCoreCount) (hi : i < cfg.platMaxPwrLvl)
include hc hi

theorem PowerTree.mem_below_ancestor : c' ∈ T.below cfg (T.ancestor c i) ↔
      c' < cfg.platformCoreCount ∧ T.ancestor c' i = T.ancestor c i := by
  refine ⟨fun h => ?_, fun h => Tree.mem_below.mpr ⟨h.1, i, hi, h.2⟩⟩
  have := ancestor_of_mem_below h
  rwa [T.level_ancestor c hc i hi, Nat.add_sub_cancel] at this

/-- The CPUs below a domain are those that its `cpu_start_idx` and `ncpus` delimit. -/
theorem PowerTree.below_ancestor :
    T.below cfg (T.ancestor c i) = Finset.Ico (T.nonCpu (T.ancestor c i)).cpuStartIdx
      ((T.nonCpu (T.ancestor c i)).cpuStartIdx + (T.nonCpu (T.ancestor c i)).ncpus) := by
  ext c'
  rw [mem_below_ancestor hc hi, Finset.mem_Ico, T.range_iff c hc i hi c']

theorem PowerTree.ancestor_inj {i' : Nat}
    (hc' : c' < cfg.platformCoreCount) (hi' : i' < cfg.platMaxPwrLvl)
    (h : T.ancestor c i = T.ancestor c' i') : i = i' := by
  have hlvl := T.level_ancestor c hc i hi
  rw [h, T.level_ancestor c' hc' i' hi'] at hlvl
  omega

end

variable {e : Nat}

theorem PowerTree.mem_above : n ∈ T.above c e ↔ ∃ i < e, T.ancestor c i = n := by
  simp [above]

theorem PowerTree.above_getElem? (h : (T.above c e)[i]? = some n) : i < e ∧ n = T.ancestor c i := by
  rw [above, getElem?_map] at h
  obtain ⟨k, hk, rfl⟩ := map_eq_some_iff.mp h
  obtain ⟨hi, rfl⟩ := List.getElem?_eq_some_iff.mp hk
  rw [length_range] at hi
  exact ⟨hi, by rw [getElem_range]⟩

theorem PowerTree.above_nodup (hc : c < cfg.platformCoreCount) (he : e ≤ cfg.platMaxPwrLvl) :
    (T.above c e).Nodup := by
  refine List.Nodup.map_on ?_ nodup_range
  intro i hi i' hi' h
  rw [mem_range] at hi hi'
  exact ancestor_inj hc (by omega) hc (by omega) h

/-- The walk up from the domain at level `i + 1` meets the domains above it. -/
theorem Tree.parentNodes_eq {t : Tree}
    (hlt : ∀ i < cfg.platMaxPwrLvl, t.ancestor c i < cfg.psciNumNonCpuPwrDomains) (k i : Nat)
    (hik : i + k ≤ cfg.platMaxPwrLvl) :
    parentNodes cfg t k (t.ancestor c i) = some ((range' i k).map (t.ancestor c)) := by
  induction k generalizing i with
  | zero => rfl
  | succ k ih =>
    rw [parentNodes, if_pos (hlt i (by omega)), range'_succ, map_cons]
    rw [show (t.nonCpu (t.ancestor c i)).parentNode = t.ancestor c (i + 1) from rfl,
      ih (i + 1) (by omega), map_some]

/-- `psci_get_parent_pwr_domain_nodes` finds the domains above a CPU. -/
theorem PowerTree.psciGetParentPwrDomainNodes_eq (hc : c < cfg.platformCoreCount)
    (he : e ≤ cfg.platMaxPwrLvl) :
    psciGetParentPwrDomainNodes cfg T.toTree c e = some (T.above c e) := by
  have hlt : ∀ i < cfg.platMaxPwrLvl, T.ancestor c i < cfg.psciNumNonCpuPwrDomains := fun i hi =>
    lt_of_lt_of_le (T.ancestor_lt c hc i hi) T.numDomains_le
  have hwalk := Tree.parentNodes_eq hlt e 0 (by omega)
  rw [← range_eq_range'] at hwalk
  exact hwalk

/-! ### Votes -/

/-- What each CPU asks for, at each level. -/
abbrev Votes (cfg : Config) := Nat → Nat → LocalState cfg

/-- What a domain is to be in: the minimum of what the CPUs below it ask for (and
`PLAT_MAX_OFF_STATE` if there is none). -/
def domainState (t : Tree) (v : Votes cfg) (n : Nat) : LocalState cfg :=
  (t.below cfg n).inf (v (t.nonCpu n).level)

variable (T)

/-- `c` asks for the states `f` at the levels 1 to `e`. -/
def castVotes (v : Votes cfg) (c e : Nat) (f : StateInfo cfg) : Votes cfg :=
  fun l c' => if c' = c ∧ 1 ≤ l ∧ l ≤ e then f l else v l c'

/-- The states of the domains are what the votes make them. -/
def Coordinated (s : State cfg) : Prop :=
  ∀ n < T.numDomains, s.localState n = domainState T.toTree s.req n

variable {T}

variable {v : Votes cfg} {l : Nat} {f : StateInfo cfg}

theorem castVotes_of_le (hl : 1 ≤ l) (hle : l ≤ e) :
    castVotes v c e f l c = f l := if_pos ⟨rfl, hl, hle⟩

theorem castVotes_of_lt (hlt : e < l) : castVotes v c e f l c' = v l c' := if_neg (by omega)

theorem castVotes_of_ne (hne : c' ≠ c) : castVotes v c e f l c' = v l c' := if_neg (by simp [hne])

@[simp] theorem castVotes_zero (v : Votes cfg) (c : Nat) (f : StateInfo cfg) :
    castVotes v c 0 f = v := by
  funext l c'
  exact if_neg (by omega)

/-- A domain is in `RUN` when a CPU below it asks for `RUN`, and only then. -/
theorem domainState_eq_run : domainState T.toTree v n = localStateRun cfg ↔
      ∃ c ∈ T.below cfg n, v (T.nonCpu n).level c = localStateRun cfg := by
  have hlt : localStateRun cfg < (⊤ : LocalState cfg) := by
    have := cfg.platMaxRetState_lt
    exact Nat.lt_of_le_of_lt (Nat.zero_le _) this
  have hle : ∀ a : LocalState cfg, a ≤ localStateRun cfg ↔ a = localStateRun cfg :=
    fun a => Fin.le_zero_iff
  rw [domainState, ← hle, Finset.inf_le_iff hlt]
  simp [hle]

theorem domainState_castVotes_of_notMem (hn : n < T.numDomains) (hout : n ∉ T.above c e) :
    domainState T.toTree (castVotes v c e f) n = domainState T.toTree v n := by
  refine Finset.inf_congr rfl fun c' hc' => ?_
  refine if_neg fun h => hout ?_
  obtain ⟨rfl, -, hle⟩ := h
  have hpos := T.level_pos n hn
  exact mem_above.mpr
    ⟨(T.nonCpu n).level - 1, by omega, (ancestor_of_mem_below hc').2⟩

variable (T) in
/-- `c` asks for the states `f` at the levels 1 to `e`, and the domains above it take the
states that follow. -/
structure Voted (s s' : State cfg) (c e : Nat) (f : StateInfo cfg) : Prop where
  req : s'.req = castVotes s.req c e f
  inside : ∀ i < e, s'.localState (T.ancestor c i) = domainState T.toTree s'.req (T.ancestor c i)
  outside : ∀ n, n ∉ T.above c e → s'.localState n = s.localState n

variable {s s' : State cfg}

/-- A vote keeps the domains in the states that the votes make them. -/
theorem Coordinated.voted (h : Coordinated T s) (hv : Voted T s s' c e f) : Coordinated T s' := by
  intro n hn
  by_cases hmem : n ∈ T.above c e
  · obtain ⟨i, hi, rfl⟩ := mem_above.mp hmem
    exact hv.inside i hi
  · rw [hv.outside n hmem, h n hn, hv.req, domainState_castVotes_of_notMem hn hmem]

theorem Voted.refl (hreq : s'.req = s.req) (hloc : s'.localState = s.localState) :
    Voted T s s' c 0 f where
  req := by rw [castVotes_zero, hreq]
  inside i hi := absurd hi (Nat.not_lt_zero i)
  outside n _ := by rw [hloc]

/-! ### What a CPU has voted for, by where it is -/

/-- Low-power states up to a level, and `RUN` above it. -/
def VotesUpTo (votes : Nat → LocalState cfg) (e : Nat) : Prop :=
  (∀ l, 1 ≤ l → l ≤ e → votes l ≠ localStateRun cfg) ∧
    ∀ l, e < l → l ≤ cfg.platMaxPwrLvl → votes l = localStateRun cfg

/-- What holds of a CPU: its `psci_svc_cpu_data` and its votes, by where it is. -/
def CpuOk (d : CpuData cfg) (votes : Nat → LocalState cfg) : Position → Prop
  | .off => d.affInfoState ≠ .on ∧ d.targetPwrlvl = invalidPwrLvl cfg ∧
      d.localState = maxOffState cfg ∧
      ∀ l, 1 ≤ l → l ≤ cfg.platMaxPwrLvl → votes l = maxOffState cfg
  | .running => d.affInfoState = .on ∧ d.targetPwrlvl = invalidPwrLvl cfg ∧
      d.localState = localStateRun cfg ∧ VotesUpTo votes 0
  | .turningOff => d.affInfoState = .on ∧ d.targetPwrlvl = invalidPwrLvl cfg ∧
      d.localState = maxOffState cfg ∧
      ∀ l, 1 ≤ l → l ≤ cfg.platMaxPwrLvl → votes l = maxOffState cfg
  | .suspended => d.affInfoState = .on ∧ d.targetPwrlvl ≤ cfg.platMaxPwrLvl ∧
      d.localState ≠ localStateRun cfg ∧ VotesUpTo votes d.targetPwrlvl
  | .retention e => d.affInfoState = .on ∧ d.targetPwrlvl = invalidPwrLvl cfg ∧
      d.localState ≠ localStateRun cfg ∧ e ≤ cfg.platMaxPwrLvl ∧ VotesUpTo votes e
  | .standby => d.affInfoState = .on ∧ d.targetPwrlvl = invalidPwrLvl cfg ∧
      d.localState ≠ localStateRun cfg ∧ VotesUpTo votes 0

theorem maxOffState_ne_run : maxOffState cfg ≠ localStateRun cfg := by
  intro h
  have hval : cfg.platMaxOffState = 0 := congrArg Fin.val h
  have := cfg.platMaxRetState_lt
  omega

variable {votes : Nat → LocalState cfg}

theorem votesUpTo_max (h : ∀ l, 1 ≤ l → l ≤ cfg.platMaxPwrLvl → votes l = maxOffState cfg) :
    VotesUpTo votes cfg.platMaxPwrLvl := by
  refine ⟨fun l hl hle => ?_, fun l hlt hle => absurd hle (by omega)⟩
  rw [h l hl hle]
  exact maxOffState_ne_run

/-- Wherever a CPU is, it votes for low-power states up to some level. -/
theorem CpuOk.votesUpTo {d : CpuData cfg} {p : Position} (h : CpuOk d votes p) :
    ∃ e, VotesUpTo votes e := by
  cases p with
  | off => exact ⟨_, votesUpTo_max h.2.2.2⟩
  | running => exact ⟨0, h.2.2.2⟩
  | turningOff => exact ⟨_, votesUpTo_max h.2.2.2⟩
  | suspended => exact ⟨_, h.2.2.2⟩
  | retention e => exact ⟨e, h.2.2.2.2⟩
  | standby => exact ⟨0, h.2.2.2⟩

theorem VotesUpTo.run_succ (h : VotesUpTo votes e) (hl : 1 ≤ l) (hlt : l < cfg.platMaxPwrLvl)
    (hrun : votes l = localStateRun cfg) : votes (l + 1) = localStateRun cfg := by
  refine h.2 (l + 1) ?_ hlt
  by_contra hle
  exact h.1 l hl (by omega) hrun

/-- Every CPU votes for low-power states up to some level. -/
def Staircase (v : Votes cfg) : Prop :=
  ∀ c < cfg.platformCoreCount, ∃ e, VotesUpTo (v · c) e

/-- **`RUN` goes up.** A domain kept in `RUN` by a CPU has only domains in `RUN` above it. -/
theorem Staircase.domainState_succ (hv : Staircase v) (hc : c < cfg.platformCoreCount)
    (hi : i + 1 < cfg.platMaxPwrLvl)
    (hrun : domainState T.toTree v (T.ancestor c i) = localStateRun cfg) :
    domainState T.toTree v (T.ancestor c (i + 1)) = localStateRun cfg := by
  obtain ⟨c', hmem, hvote⟩ := domainState_eq_run.mp hrun
  rw [T.level_ancestor c hc i (by omega)] at hvote
  obtain ⟨hc', hanc⟩ := (mem_below_ancestor hc (by omega)).mp hmem
  obtain ⟨e, he⟩ := hv c' hc'
  refine domainState_eq_run.mpr ⟨c', ?_, ?_⟩
  · rw [mem_below_ancestor hc hi]
    refine ⟨hc', ?_⟩
    rw [Tree.ancestor, hanc, Tree.ancestor]
  · rw [T.level_ancestor c hc (i + 1) hi]
    exact he.run_succ (by omega) (by omega) hvote

/-- A CPU that keeps to the staircase keeps the votes on it. -/
theorem Staircase.cast (hv : Staircase v) {e' : Nat} (h : VotesUpTo (castVotes v c e f · c) e') :
    Staircase (castVotes v c e f) := by
  intro c' hc'
  obtain rfl | hcc := eq_or_ne c' c
  · exact ⟨e', h⟩
  · obtain ⟨k, hk⟩ := hv c' hc'
    refine ⟨k, ?_⟩
    simp only [castVotes_of_ne hcc]
    exact hk

/-! ### What the loops of the source do -/

theorem setDomainsToRun_eq (c : Nat) (nodes : List Nat) (lvl : Nat) (s : State cfg) :
    setDomainsToRun c lvl nodes s =
    { s with
      localState := fun n => if n ∈ nodes then localStateRun cfg else s.localState n
      req := fun l c' => if c' = c ∧ lvl ≤ l ∧ l < lvl + nodes.length then localStateRun cfg
        else s.req l c' } := by
  induction nodes generalizing lvl s with
  | nil =>
    have hreq : (fun l c' => if c' = c ∧ lvl ≤ l ∧ l < lvl + ([] : List Nat).length then
        localStateRun cfg else s.req l c') = s.req := by
      funext l c'
      exact if_neg (by simp only [length_nil]; omega)
    simp only [setDomainsToRun, not_mem_nil, if_false, hreq]
  | cons n nodes ih =>
    rw [setDomainsToRun, ih]
    simp only [psciSetReqLocalPwrState, setNonCpuPdNodeLocalState,
      State.mk.injEq, true_and, and_true]
    constructor
    · funext m
      by_cases hm : m = n
      · subst hm; simp
      · simp [hm]
    · funext l c'
      obtain rfl | hc := eq_or_ne c' c
      · by_cases hl : l = lvl
        · subst hl; simp
        · simp only [update_of_ne hl, true_and, length_cons]
          congr 1
          exact propext ⟨fun h => by omega, fun h => by omega⟩
      · simp only [hc, false_and, if_false]
        by_cases hl : l = lvl
        · subst hl; simp [hc]
        · simp [hl]

section

variable {lvl : Nat} {nodes : List Nat} {level : Nat → Nat}

theorem level_tail {m : Nat} (hl : ∀ k n, (m :: nodes)[k]? = some n → level n = lvl + k) :
    ∀ k n, nodes[k]? = some n → level n = lvl + 1 + k := by
  intro k n hk
  rw [hl (k + 1) n (by simpa using hk)]
  omega

theorem setTargetStates_localState (info : StateInfo cfg) (s : State cfg)
    (hl : ∀ k n, nodes[k]? = some n → level n = lvl + k) :
    (setTargetStates info lvl nodes s).localState n =
      if n ∈ nodes then info (level n) else s.localState n := by
  induction nodes generalizing lvl s with
  | nil => rfl
  | cons m nodes ih =>
    rw [setTargetStates, ih _ (level_tail hl)]
    by_cases hm : n = m
    · have hlvl : level n = lvl := hl 0 n (by rw [hm]; rfl)
      simp [setNonCpuPdNodeLocalState, hm ▸ hlvl, hm]
    · simp [setNonCpuPdNodeLocalState, hm]

end

theorem setTargetStates_rest (info : StateInfo cfg) (nodes : List Nat) (lvl : Nat) (s : State cfg) :
    (setTargetStates info lvl nodes s).req = s.req ∧
    (setTargetStates info lvl nodes s).cpu = s.cpu ∧
    (setTargetStates info lvl nodes s).pos = s.pos := by
  induction nodes generalizing lvl s with
  | nil => exact ⟨rfl, rfl, rfl⟩
  | cons m nodes ih => exact ih (lvl + 1) _

/-- The votes `v` are those of the state, except that `c` is still to cast its own from
level `lvl` on, `k` of them, for the states in `info`. -/
structure ToCast (v : Votes cfg) (c lvl k : Nat) (info : StateInfo cfg) (s : State cfg) :
    Prop where
  cast : ∀ l, lvl ≤ l → l < lvl + k → v l c = info l
  keep : ∀ l c', ¬ (c' = c ∧ lvl ≤ l ∧ l < lvl + k) → v l c' = s.req l c'

variable {lvl : Nat} {info : StateInfo cfg}

theorem ToCast.req_eq (h : ToCast v c lvl 0 info s) : v = s.req := by
  funext l c'
  exact h.keep l c' (by omega)

/-- One vote is cast; what `info` says of its level does not matter any more. -/
theorem ToCast.next {k : Nat} (h : ToCast v c lvl (k + 1) info s) (target : LocalState cfg) :
    ToCast v c (lvl + 1) k (update info lvl target)
      (s.psciSetReqLocalPwrState lvl c (info lvl)) := by
  refine ⟨fun l hle hlt => ?_, fun l c' hno => ?_⟩
  · rw [update_of_ne (by omega)]
    exact h.cast l (by omega) (by omega)
  · simp only [psciSetReqLocalPwrState]
    obtain rfl | hl := eq_or_ne l lvl
    · rw [update_self]
      obtain rfl | hc := eq_or_ne c' c
      · rw [update_self]
        exact h.cast l (by omega) (by omega)
      · rw [update_of_ne hc]
        exact h.keep l c' (by simp [hc])
    · rw [update_of_ne hl]
      exact h.keep l c' (by omega)

theorem keepRunning_eq (c : Nat) (v : Votes cfg) (k lvl : Nat) (info : StateInfo cfg)
    (s : State cfg) (h : ToCast v c lvl k info s) :
    keepRunning c k lvl info s =
      (fun l => if lvl ≤ l ∧ l < lvl + k then localStateRun cfg else info l,
        { s with req := v }) := by
  induction k generalizing lvl info s with
  | zero =>
    have hinfo : (fun l => if lvl ≤ l ∧ l < lvl + 0 then localStateRun cfg else info l) = info := by
      funext l
      exact if_neg (by omega)
    rw [keepRunning, hinfo, h.req_eq]
  | succ k ih =>
    rw [keepRunning, ih _ _ _ (h.next _)]
    simp only [Prod.mk.injEq]
    refine ⟨?_, rfl⟩
    funext l
    by_cases hl : l = lvl
    · subst hl; simp
    · rw [update_of_ne hl]
      congr 1
      exact propext ⟨fun h => by omega, fun h => by omega⟩

/-- The minimum of the votes that `cpu_start_idx` and `ncpus` of a domain delimit. -/
def rangeState (t : Tree) (v : Votes cfg) (l n : Nat) : LocalState cfg :=
  (Finset.Ico (t.nonCpu n).cpuStartIdx ((t.nonCpu n).cpuStartIdx + (t.nonCpu n).ncpus)).inf (v l)

theorem platGetTargetPwrState_eq_some {states : List (LocalState cfg)} {target : LocalState cfg}
    (hsts : s.psciGetReqLocalPwrStates lvl (t.nonCpu n) = some states)
    (htgt : platGetTargetPwrState states = some target) :
    target = rangeState t s.req lvl n := by
  obtain ⟨-, hsts⟩ := ite_none_right_eq_some.mp hsts
  cases hsts
  rw [platGetTargetPwrState, ite_none_right_eq_some, foldl_min_range'] at htgt
  cases htgt.2
  exact top_inf_eq _

/-- What holds of the first domain, and of each one when it holds of the one before. -/
theorem forall_getElem?_of_succ {nodes : List Nat} {p : Nat → Nat → Prop}
    (h0 : ∀ n, nodes[0]? = some n → p 0 n)
    (hsucc : ∀ k n n', nodes[k]? = some n → nodes[k + 1]? = some n' → p k n → p (k + 1) n') :
    ∀ k n, nodes[k]? = some n → p k n := by
  intro k
  induction k with
  | zero => exact h0
  | succ k ih =>
    intro n hn
    have hlt : k < nodes.length := Nat.lt_of_succ_lt (List.getElem?_eq_some_iff.mp hn).1
    have hk := List.getElem?_eq_getElem hlt
    exact hsucc k _ n hk hn (ih _ hk)

/-- `psci_do_state_coordination`, up to where it records the states: every level gets
the minimum of the votes, provided that `RUN` goes up. -/
theorem coordinate_eq_some {nodes : List Nat} {level : Nat → Nat} {lvl : Nat}
    {info info' : StateInfo cfg} {s s' : State cfg}
    (h : coordinate t c lvl nodes info s = some (info', s'))
    (hl : ∀ k n, nodes[k]? = some n → level n = lvl + k) (hv : ToCast v c lvl nodes.length info s)
    (hup : ∀ k n n', nodes[k]? = some n → nodes[k + 1]? = some n' →
      rangeState t v (level n) n = localStateRun cfg →
      rangeState t v (level n') n' = localStateRun cfg) :
    s' = { s with req := v } ∧ (∀ n ∈ nodes, info' (level n) = rangeState t v (level n) n) ∧
    ∀ l < lvl, info' l = info l := by
  induction nodes generalizing lvl info s with
  | nil =>
    cases h
    refine ⟨by rw [hv.req_eq], fun n hn => absurd hn not_mem_nil, fun l _ => rfl⟩
  | cons n nodes ih =>
    obtain ⟨states, hsts, h⟩ := bind_eq_some_iff.mp h
    obtain ⟨target, htgt, h⟩ := bind_eq_some_iff.mp h
    have hrest := hv.next target
    -- the votes of this level are all cast when the platform is asked
    have hlvl : v lvl = (s.psciSetReqLocalPwrState lvl c (info lvl)).req lvl :=
      funext fun c' => hrest.keep lvl c' (by omega)
    obtain rfl := platGetTargetPwrState_eq_some hsts htgt
    have htgt : rangeState t (s.psciSetReqLocalPwrState lvl c (info lvl)).req lvl n =
        rangeState t v lvl n := by rw [rangeState, rangeState, hlvl]
    have hn : level n = lvl := hl 0 n rfl
    rw [htgt] at h hrest
    by_cases hrun : rangeState t v lvl n = localStateRun cfg
    · -- the loop breaks off: `RUN` from here up, and the remaining votes are cast
      rw [if_pos (by simp [isLocalStateRun, hrun]), keepRunning_eq c v _ _ _ _ hrest] at h
      cases h
      refine ⟨rfl, fun m hm => ?_, fun l hl => ?_⟩
      · obtain ⟨k, hm⟩ := getElem?_of_mem hm
        have hrunm : rangeState t v (level m) m = localStateRun cfg := by
          refine forall_getElem?_of_succ
            (fun m hm => ?_) hup k m hm
          obtain rfl : n = m := by simpa using hm
          rw [hn, hrun]
        have hk := (List.getElem?_eq_some_iff.mp hm).1
        rw [length_cons] at hk
        rw [hrunm, hl k m hm]
        obtain rfl | hk0 := eq_or_ne k 0
        · simp [hrun]
        · exact if_pos ⟨by omega, by omega⟩
      · refine (if_neg (by omega)).trans ?_
        rw [update_of_ne (by omega)]
    · rw [if_neg (by simp [isLocalStateRun, hrun])] at h
      obtain ⟨rfl, hin, hbel⟩ := ih h (level_tail hl) hrest fun k m m' hm hm' =>
        hup (k + 1) m m' (by simpa using hm) (by simpa using hm')
      refine ⟨rfl, fun m hm => ?_, fun l hl => ?_⟩
      · by_cases htl : m ∈ nodes
        · exact hin m htl
        · obtain rfl := (mem_cons.mp hm).resolve_right htl
          rw [hn, hbel lvl (by omega), update_self]
      · rw [hbel l (by omega), update_of_ne (by omega)]

section

variable (hc : c < cfg.platformCoreCount) (he : e ≤ cfg.platMaxPwrLvl)
include hc he

omit he in
theorem rangeState_ancestor (hi : i < cfg.platMaxPwrLvl) (v : Votes cfg) :
    rangeState T.toTree v (T.nonCpu (T.ancestor c i)).level (T.ancestor c i) =
      domainState T.toTree v (T.ancestor c i) := by
  rw [rangeState, domainState, below_ancestor hc hi]

theorem PowerTree.level_above (k n) (hk : (T.above c e)[k]? = some n) :
    (T.nonCpu n).level = 1 + k := by
  obtain ⟨hk', rfl⟩ := above_getElem? hk
  rw [T.level_ancestor c hc k (by omega), add_comm]

/-- **`psci_do_state_coordination`** casts the votes of the CPU and gives every domain
above it the minimum of the votes of its CPUs. -/
theorem psciDoStateCoordination_voted {r : StateInfo cfg × State cfg}
    (h : psciDoStateCoordination T.toTree c (T.above c e) info s = some r)
    (hv : Staircase (castVotes s.req c e info)) :
    Voted T s r.2 c e info ∧ (∀ i < e, r.1 (i + 1) = r.2.localState (T.ancestor c i)) ∧
      r.2.cpu = update s.cpu c { s.cpu c with localState := info 0 } ∧
      r.2.pos = s.pos := by
  obtain ⟨⟨info', s₁⟩, hco, rfl⟩ := map_eq_some_iff.mp h
  have hlen : (T.above c e).length = e := by simp [above]
  have hcast : ToCast (castVotes s.req c e info) c 1 (T.above c e).length info s := by
    exact ⟨fun l hl hlt => castVotes_of_le hl (by omega), fun l c' hno => if_neg (by omega)⟩
  obtain ⟨rfl, hinfo, hzero⟩ :=
    coordinate_eq_some hco (level_above hc he) hcast fun k n n' hn hn' hrun => by
      obtain ⟨-, rfl⟩ := above_getElem? hn
      obtain ⟨hk', rfl⟩ := above_getElem? hn'
      rw [rangeState_ancestor hc (by omega)] at hrun ⊢
      exact hv.domainState_succ hc (by omega) hrun
  simp only [psciSetTargetLocalPwrStates]
  obtain ⟨hreq, hcpu, hpos⟩ := setTargetStates_rest info' (T.above c e) 1
    (setCpu { s with req := castVotes s.req c e info } c
      { s.cpu c with localState := info' 0 })
  have hset := fun n => setTargetStates_localState (n := n) info'
    (setCpu { s with req := castVotes s.req c e info } c
      { s.cpu c with localState := info' 0 }) (level_above (T := T) hc he)
  have hin := fun i hi => (hset _).trans (if_pos (mem_above.mpr ⟨i, hi, rfl⟩))
  refine ⟨⟨hreq, fun i hi => ?_, fun n hn => (hset n).trans (if_neg hn)⟩, fun i hi => ?_, ?_, hpos⟩
  · rw [hin i hi, hinfo _ (mem_above.mpr ⟨i, hi, rfl⟩), rangeState_ancestor hc (by omega), hreq]
    rfl
  · rw [hin i hi, T.level_ancestor c hc i (by omega)]
  · rw [hcpu, ← hzero 0 one_pos]
    rfl

/-- **`psci_set_pwr_domains_to_run`** casts the votes of the CPU for `RUN`, and so brings
the domains above it to `RUN`. -/
theorem psciSetPwrDomainsToRun_voted :
    Voted T s (psciSetPwrDomainsToRun c (T.above c e) s) c e (fun _ => localStateRun cfg) := by
  have hlen : (T.above c e).length = e := by simp [above]
  have hreq : (psciSetPwrDomainsToRun c (T.above c e) s).req =
      castVotes s.req c e fun _ => localStateRun cfg := by
    simp only [psciSetPwrDomainsToRun, setCpu, setDomainsToRun_eq, hlen]
    funext l c'
    congr 1
    exact propext ⟨fun h => ⟨h.1, h.2.1, by omega⟩, fun h => ⟨h.1, h.2.1, by omega⟩⟩
  have hloc : ∀ n, (psciSetPwrDomainsToRun c (T.above c e) s).localState n =
      if n ∈ T.above c e then localStateRun cfg else s.localState n := by
    simp [psciSetPwrDomainsToRun, setCpu, setDomainsToRun_eq]
  refine ⟨hreq, fun i hi => ?_, fun n hn => by rw [hloc, if_neg hn]⟩
  rw [hloc, if_pos (mem_above.mpr ⟨i, hi, rfl⟩), hreq]
  refine (domainState_eq_run.mpr ⟨c, ?_, ?_⟩).symm
  · rw [mem_below_ancestor hc (by omega)]
    exact ⟨hc, rfl⟩
  · rw [T.level_ancestor c hc i (by omega)]
    exact castVotes_of_le (by omega) (by omega)

end

/-! ### Valid requests -/

theorem highestLvl_spec (p : LocalState cfg → Bool) (info : StateInfo cfg) : ∀ i,
    (highestLvl p info i = invalidPwrLvl cfg ∧ ∀ l ≤ i, p (info l) = false) ∨
    (highestLvl p info i ≤ i ∧ p (info (highestLvl p info i)) = true ∧
      ∀ l, highestLvl p info i < l → l ≤ i → p (info l) = false) := by
  intro i
  induction i with
  | zero =>
    rw [highestLvl]
    split
    next h => exact .inr ⟨le_rfl, h, fun l hl hle => absurd hl (by omega)⟩
    next h =>
      refine .inl ⟨rfl, fun l hl => ?_⟩
      obtain rfl : l = 0 := by omega
      simpa using h
  | succ i ih =>
    rw [highestLvl]
    split_ifs with h
    · exact .inr ⟨le_rfl, h, fun l hl hle => absurd hl (by omega)⟩
    · have hlast : ∀ l, l ≤ i + 1 → ¬ l ≤ i → p (info l) = false := by
        intro l hl hli
        obtain rfl : l = i + 1 := by omega
        simpa using h
      rcases ih with ⟨hinv, hall⟩ | ⟨hle, hp, hall⟩
      · refine .inl ⟨hinv, fun l hl => ?_⟩
        by_cases hli : l ≤ i
        · exact hall l hli
        · exact hlast l hl hli
      · refine .inr ⟨by omega, hp, fun l hl hle' => ?_⟩
        by_cases hli : l ≤ i
        · exact hall l hl hli
        · exact hlast l hle' hli

theorem noShallowerBelow_le (info : StateInfo cfg) (i : Nat) (deepest : LocalStateType)
    (h : noShallowerBelow info i deepest = true) :
    ∀ l ≤ i, deepest.val ≤ (findLocalStateType (info l)).val := by
  induction i generalizing deepest with
  | zero =>
    intro l hl
    obtain rfl : l = 0 := by omega
    simpa [noShallowerBelow] using h
  | succ i ih =>
    intro l hl
    rw [noShallowerBelow] at h
    split at h
    next hlt => cases h
    next hlt =>
      by_cases hli : l ≤ i
      · exact le_trans (not_lt.mp hlt) (ih _ h l hli)
      · obtain rfl : l = i + 1 := by omega
        exact not_lt.mp hlt

theorem findLocalStateType_pos {state : LocalState cfg} :
    0 < (findLocalStateType state).val ↔ state ≠ localStateRun cfg := by
  rw [findLocalStateType]
  by_cases h : state = localStateRun cfg
  · simp [h, LocalStateType.val]
  · rw [if_pos h]
    split <;> simp [h, LocalStateType.val]

/-- The target level of a request is the highest one that is not to be in `RUN`. -/
theorem psciFindTargetSuspendLvl_spec (info : StateInfo cfg) :
    psciFindTargetSuspendLvl info = invalidPwrLvl cfg ∨
    (psciFindTargetSuspendLvl info ≤ cfg.platMaxPwrLvl ∧
      info (psciFindTargetSuspendLvl info) ≠ localStateRun cfg ∧
      ∀ l, psciFindTargetSuspendLvl info < l → l ≤ cfg.platMaxPwrLvl →
        info l = localStateRun cfg) := by
  have hnot : ∀ state : LocalState cfg,
      (!isLocalStateRun state) = false ↔ state = localStateRun cfg := by
    simp [isLocalStateRun]
  rcases highestLvl_spec (fun state => !isLocalStateRun state) info cfg.platMaxPwrLvl with
    ⟨hinv, -⟩ | ⟨hle, hp, hab⟩
  · exact .inl hinv
  · refine .inr ⟨hle, fun hrun => ?_, fun l hl hmax => (hnot _).mp (hab l hl hmax)⟩
    rw [psciFindTargetSuspendLvl, ← hnot] at hrun
    rw [hrun] at hp
    cases hp

/-- A valid request is for low-power states up to its target level, and for `RUN` above. -/
theorem psciValidateSuspendReq_success {isPowerDownState : Bool}
    (h : psciValidateSuspendReq info isPowerDownState = .success) :
    psciFindTargetSuspendLvl info ≤ cfg.platMaxPwrLvl ∧
      info 0 ≠ localStateRun cfg ∧ VotesUpTo info (psciFindTargetSuspendLvl info) := by
  rw [psciValidateSuspendReq] at h
  rcases psciFindTargetSuspendLvl_spec info with hinv | ⟨hle, htgt, hab⟩
  · rw [if_pos hinv] at h
    cases h
  rw [if_neg (by rw [invalidPwrLvl]; omega)] at h
  by_cases hshal : noShallowerBelow info (psciFindTargetSuspendLvl info) .run = true
  · have hbel : ∀ l ≤ psciFindTargetSuspendLvl info, info l ≠ localStateRun cfg := by
      intro l hl
      generalize psciFindTargetSuspendLvl info = i at hshal htgt hl
      cases i with
      | zero =>
        obtain rfl : l = 0 := by omega
        exact htgt
      | succ i =>
        by_cases hli : l ≤ i
        · have hdeeper := noShallowerBelow_le info i _ hshal l hli
          have hpos := findLocalStateType_pos.mpr htgt
          exact findLocalStateType_pos.mp (by omega)
        · obtain rfl : l = i + 1 := by omega
          exact htgt
    exact ⟨hle, hbel 0 (Nat.zero_le _), fun l _ hl => hbel l hl, hab⟩
  · rw [if_pos (by simpa using hshal)] at h
    cases h

end TrustedFirmware.Psci.Domains
