import TrustedFirmware.Psci.TreeBuild

/-!
# The CPUs below each domain

`psci_update_pwrlvl_limits` goes through the CPUs once, and finds where a domain begins by comparing
the domains above a CPU with those above the one before it. In a tree whose CPUs are numbered depth
first the limits of every domain that has CPUs delimit exactly these CPUs (`pwrlvl_limits_exact`).
The tree that `psci_setup` builds is numbered that way, as the domains above the CPUs at one level
never decrease from a CPU to the next.
-/

namespace TrustedFirmware.Psci.Domains

open Lib Option Function List

variable {cfg : Config} {c n k j platMyCorePos : Nat} {u : Setup cfg} {t : Tree}

/-! ### The limits -/

variable {topology : List UInt8} {t₀ : Tree}

variable (cfg) in
/-- The CPUs are numbered depth first: those below one domain are adjacent, at every level. The
domains above a CPU are nodes of the array, each at its level. -/
structure DepthFirst (t : Tree) : Prop where
  inside : ∀ c < cfg.platformCoreCount, ∀ i < cfg.platMaxPwrLvl,
    t.ancestor c i < cfg.psciNumNonCpuPwrDomains
  level : ∀ c < cfg.platformCoreCount, ∀ i < cfg.platMaxPwrLvl,
    (t.nonCpu (t.ancestor c i)).level = i + 1
  adjacent : ∀ i < cfg.platMaxPwrLvl, ∀ c₁ c c₂, c₁ ≤ c → c ≤ c₂ → c₂ < cfg.platformCoreCount →
    t.ancestor c₁ i = t.ancestor c₂ i → t.ancestor c i = t.ancestor c₂ i

theorem Described.depthFirst (h : Described cfg topology t₀)
    (hle : (describedDomains cfg topology).length ≤ cfg.psciNumNonCpuPwrDomains) :
    DepthFirst cfg t₀ where
  inside c hc i hi := by
    obtain ⟨e, he⟩ := h.ancestor hc hi
    exact lt_of_lt_of_le (List.getElem?_eq_some_iff.mp he).1 hle
  level c hc i hi := by
    obtain ⟨e, he⟩ := h.ancestor hc hi
    exact (h.domain _ e _ he).1
  adjacent i hi c₁ c c₂ hle₁ hle₂ hc₂ heq := by
    have h₁ := h.ancestor_mono hle₁ (by omega) hi
    have h₂ := h.ancestor_mono hle₂ hc₂ hi
    omega

/-- Two trees that differ in the limits only. -/
def SameParents (t t' : Tree) : Prop :=
  t'.cpuParent = t.cpuParent ∧ ∀ n, (t'.nonCpu n).parentNode = (t.nonCpu n).parentNode ∧
    (t'.nonCpu n).level = (t.nonCpu n).level

theorem SameParents.ancestor {t' : Tree} (h : SameParents t t') (c : Nat) :
    ∀ i, t'.ancestor c i = t.ancestor c i := by
  intro i
  induction i with
  | zero => rw [Tree.ancestor, Tree.ancestor, h.1]
  | succ i ih => rw [Tree.ancestor, Tree.ancestor, ih, (h.2 _).1]

variable (t₀) in
/-- After the CPUs below `k`, at level `j + 1`: the limits of every domain delimit those of
the CPUs that are below it, and the last one is in `nodes_idx[j]`, whose limits end at
`k`. -/
structure LimitOk (k j : Nat) (w : Tree × (Nat → Nat)) : Prop where
  range : ∀ n, (w.1.nonCpu n).level = j + 1 → ∀ c, ((w.1.nonCpu n).cpuStartIdx ≤ c ∧
      c < (w.1.nonCpu n).cpuStartIdx + (w.1.nonCpu n).ncpus) ↔
    (c < k ∧ t₀.ancestor c j = n)
  last : (w.1.nonCpu (w.2 j)).level = j + 1 →
    (w.1.nonCpu (w.2 j)).cpuStartIdx + (w.1.nonCpu (w.2 j)).ncpus = k
  prev : 0 < k → w.2 j = t₀.ancestor (k - 1) j

theorem updateLimit_eq (c n j : Nat) (w : Tree × (Nat → Nat)) : updateLimit c n j w =
      (w.1.setNode n { w.1.nonCpu n with
          cpuStartIdx := if n = w.2 j then (w.1.nonCpu n).cpuStartIdx else c
          ncpus := (w.1.nonCpu n).ncpus + 1 },
        update w.2 j n) := by
  by_cases h : n = w.2 j
  · simp [updateLimit, h]
  · simp [updateLimit, h, Tree.setNode]

variable {w : Tree × (Nat → Nat)}

theorem updateLimit_nonCpu_of_ne {m : Nat} (hm : m ≠ n) :
    (updateLimit c n j w).1.nonCpu m = w.1.nonCpu m := by
  rw [updateLimit_eq]
  exact update_of_ne hm _ _

theorem updateLimit_nonCpu_self : (updateLimit c n j w).1.nonCpu n = { w.1.nonCpu n with
      cpuStartIdx := if n = w.2 j then (w.1.nonCpu n).cpuStartIdx else c
      ncpus := (w.1.nonCpu n).ncpus + 1 } := by
  rw [updateLimit_eq]
  exact update_self _ _ _

theorem updateLimit_snd : (updateLimit c n j w).2 = update w.2 j n := by
  rw [updateLimit_eq]

theorem SameParents.updateLimit (h : SameParents t₀ w.1) :
    SameParents t₀ (updateLimit c n j w).1 := by
  refine ⟨?_, fun m => ?_⟩
  · rw [updateLimit_eq]
    exact h.1
  · obtain rfl | hm := eq_or_ne m n
    · rw [updateLimit_nonCpu_self]
      exact h.2 m
    · rw [updateLimit_nonCpu_of_ne hm]
      exact h.2 m

/-- A CPU is counted at its own level: it follows those of the domain that was met last, or
it is the first one of its domain. -/
theorem LimitOk.updateLimit_self (h : LimitOk t₀ c j w) (hn : n = t₀.ancestor c j)
    (hlvl : (w.1.nonCpu n).level = j + 1)
    (hadj : ∀ c' < c, t₀.ancestor c' j = t₀.ancestor c j →
      t₀.ancestor (c - 1) j = t₀.ancestor c j) :
    LimitOk t₀ (c + 1) j (updateLimit c n j w) := by
  -- the new limits of the domain end behind this CPU
  have hend : (if n = w.2 j then (w.1.nonCpu n).cpuStartIdx else c) +
      ((w.1.nonCpu n).ncpus + 1) = c + 1 ∧
      ∀ c', (if n = w.2 j then (w.1.nonCpu n).cpuStartIdx else c) ≤ c' → c' < c →
        t₀.ancestor c' j = n := by
    split_ifs with hsame
    · have hlast := h.last (by rw [← hsame]; exact hlvl)
      rw [← hsame] at hlast
      refine ⟨by omega, fun c' hle hlt => ?_⟩
      exact ((h.range n hlvl c').mp ⟨hle, by omega⟩).2
    · have hemp : (w.1.nonCpu n).ncpus = 0 := by
        by_contra hne
        obtain ⟨hlt, hanc⟩ := (h.range n hlvl (w.1.nonCpu n).cpuStartIdx).mp ⟨le_rfl, by omega⟩
        exact hsame (hn.trans ((hadj _ hlt (hanc.trans hn)).symm.trans (h.prev (by omega)).symm))
      exact ⟨by omega, fun c' hle hlt => absurd hlt (by omega)⟩
  refine ⟨fun m hm c' => ?_, fun _ => ?_, fun _ => ?_⟩
  · obtain rfl | hne := eq_or_ne m n
    · rw [updateLimit_nonCpu_self]
      simp only
      constructor
      · intro ⟨hle, hlt⟩
        obtain rfl | hlt' := eq_or_lt_of_le (show c' ≤ c by omega)
        · exact ⟨Nat.lt_succ_self _, hn.symm⟩
        · exact ⟨by omega, hend.2 c' hle hlt'⟩
      · intro ⟨hlt, hanc⟩
        refine ⟨?_, by omega⟩
        split_ifs at hend ⊢ with hsame
        · obtain rfl | hlt' := eq_or_lt_of_le (show c' ≤ c by omega)
          · omega
          · exact ((h.range m hlvl c').mpr ⟨hlt', hanc⟩).1
        · -- a CPU before this one would be in the limits, which are empty
          by_contra hlt'
          have := (h.range m hlvl c').mpr ⟨by omega, hanc⟩
          omega
    · rw [updateLimit_nonCpu_of_ne hne] at hm ⊢
      rw [h.range m hm c']
      constructor
      · intro ⟨hlt, hanc⟩
        exact ⟨by omega, hanc⟩
      · intro ⟨hlt, hanc⟩
        obtain rfl | hlt' := eq_or_lt_of_le (show c' ≤ c by omega)
        · exact absurd (hanc.symm.trans hn.symm) hne
        · exact ⟨hlt', hanc⟩
  · rw [updateLimit_snd, update_self, updateLimit_nonCpu_self]
    exact hend.1
  · rw [updateLimit_snd, update_self]
    exact hn

/-- The other levels do not notice. -/
theorem LimitOk.updateLimit_of_ne {j' : Nat} (h : LimitOk t₀ k j' w) (hne : j' ≠ j)
    (hlvl : (w.1.nonCpu n).level = j + 1) :
    LimitOk t₀ k j' (updateLimit c n j w) := by
  have hoth : ∀ m, ((updateLimit c n j w).1.nonCpu m).level = j' + 1 → m ≠ n := by
    intro m hm hmn
    subst hmn
    rw [updateLimit_nonCpu_self, hlvl] at hm
    omega
  have hidx : (updateLimit c n j w).2 j' = w.2 j' := by
    rw [updateLimit_snd, update_of_ne hne]
  refine ⟨fun m hm c' => ?_, fun hm => ?_, fun hk => ?_⟩
  · have hmn := hoth m hm
    rw [updateLimit_nonCpu_of_ne hmn] at hm ⊢
    exact h.range m hm c'
  · rw [hidx] at hm ⊢
    have hmn := hoth _ hm
    rw [updateLimit_nonCpu_of_ne hmn] at hm ⊢
    exact h.last hm
  · rw [hidx]
    exact h.prev hk

section

variable (h : DepthFirst cfg t₀)
  (hzero : ∀ n, (t₀.nonCpu n).cpuStartIdx = 0 ∧ (t₀.nonCpu n).ncpus = 0)
include h hzero

omit hzero in
/-- One CPU: the limits of the levels from `j` on count it already. -/
theorem updateLimits_ok (hc : c < cfg.platformCoreCount) {tempIndex : List Nat}
    (htemp : ∀ j < cfg.platMaxPwrLvl, tempIndex.getD j 0 = t₀.ancestor c j) {j : Nat}
    {w : Tree × (Nat → Nat)} (hj : j ≤ cfg.platMaxPwrLvl) (hsame : SameParents t₀ w.1)
    (htodo : ∀ j' < j, LimitOk t₀ c j' w)
    (hdone : ∀ j', j ≤ j' → j' < cfg.platMaxPwrLvl → LimitOk t₀ (c + 1) j' w) :
    SameParents t₀ (updateLimits c tempIndex j w).1 ∧
      ∀ j' < cfg.platMaxPwrLvl, LimitOk t₀ (c + 1) j' (updateLimits c tempIndex j w) := by
  induction j generalizing w with
  | zero =>
    exact ⟨hsame, fun j' hj' => hdone j' (Nat.zero_le j') hj'⟩
  | succ j ih =>
    have hn := htemp j (by omega)
    have hlvl : (w.1.nonCpu (tempIndex.getD j 0)).level = j + 1 := by
      rw [hn, (hsame.2 _).2]
      exact h.level c hc j (by omega)
    refine ih (by omega) hsame.updateLimit (fun j' hj' => ?_) fun j' hle hlt => ?_
    · exact (htodo j' (by omega)).updateLimit_of_ne (by omega) hlvl
    · obtain rfl | hne := eq_or_ne j' j
      · refine (htodo j' (by omega)).updateLimit_self hn hlvl fun c' hc' => ?_
        exact h.adjacent j' hlt c' (c - 1) c (by omega) (by omega) hc
      · exact (hdone j' (by omega) hlt).updateLimit_of_ne hne hlvl

omit hzero in
theorem limitsFrom_ok {n c : Nat} {w : Tree × (Nat → Nat)} (hcn : c + n ≤ cfg.platformCoreCount)
    (hsame : SameParents t₀ w.1) (hok : ∀ j < cfg.platMaxPwrLvl, LimitOk t₀ c j w) :
    ∃ w', limitsFrom cfg n c w = some w' ∧ SameParents t₀ w'.1 ∧
      ∀ j < cfg.platMaxPwrLvl, LimitOk t₀ (c + n) j w' := by
  induction n generalizing c w with
  | zero => exact ⟨_, rfl, hsame, hok⟩
  | succ n ih =>
    have hc : c < cfg.platformCoreCount := by omega
    have hwalk : psciGetParentPwrDomainNodes cfg w.1 c cfg.platMaxPwrLvl =
        some ((range' 0 cfg.platMaxPwrLvl).map (w.1.ancestor c)) :=
      Tree.parentNodes_eq (fun i hi => hsame.ancestor c i ▸ h.inside c hc i hi) _ 0 (by omega)
    have htemp : ∀ j < cfg.platMaxPwrLvl,
        ((range' 0 cfg.platMaxPwrLvl).map (w.1.ancestor c)).getD j 0 = t₀.ancestor c j := by
      intro j hj
      simp [hj, hsame.ancestor]
    obtain ⟨hsame', hok'⟩ := updateLimits_ok h hc htemp le_rfl hsame hok
      fun j' hle hlt => absurd hlt (by omega)
    obtain ⟨w', hw', hrest⟩ := ih (by omega) hsame' hok'
    rw [show c + 1 + n = c + (n + 1) by omega] at hrest
    exact ⟨w', by rw [limitsFrom, hwalk]; exact hw', hrest⟩

omit h in
theorem limitOk_zero : LimitOk t₀ 0 j (t₀, fun _ => 0) := by
  refine ⟨fun n _ c => ?_, fun _ => ?_, fun h => absurd h (lt_irrefl 0)⟩
  · rw [(hzero n).1, (hzero n).2]
    omega
  · rw [(hzero 0).1, (hzero 0).2]

/-- **The limits of a tree that is numbered depth first.** -/
theorem DepthFirst.limits :
    ∃ t idx, psciUpdatePwrlvlLimits cfg t₀ = some t ∧ SameParents t₀ t ∧
      ∀ j < cfg.platMaxPwrLvl, LimitOk t₀ cfg.platformCoreCount j (t, idx) := by
  obtain ⟨⟨t, idx⟩, hfrom, hsame, hok⟩ := limitsFrom_ok h (zero_add _).le
    ⟨rfl, fun _ => ⟨rfl, rfl⟩⟩ fun j _ => limitOk_zero hzero
  rw [zero_add] at hok
  exact ⟨t, idx, by rw [psciUpdatePwrlvlLimits, hfrom]; rfl, hsame, hok⟩

end

variable (cfg) in
/-- The limits of a node delimit the CPUs that have it above them at level `i + 1`, and the states
that a coordination at that level reads are those that these CPUs have requested. -/
def LimitsExact (t : Tree) (i : Nat) (node : NonCpuPdNode) (n : Nat) : Prop :=
  (∀ c, (node.cpuStartIdx ≤ c ∧ c < node.cpuStartIdx + node.ncpus) ↔
    c < cfg.platformCoreCount ∧ t.ancestor c i = n) ∧
  ∀ s : State cfg, s.psciGetReqLocalPwrStates (i + 1) node =
    some (((range cfg.platformCoreCount).filter (t.ancestor · i = n)).map (s.req (i + 1)))

/-- **`psci_update_pwrlvl_limits`**, for any tree whose CPUs are numbered depth first: the limits of
every domain that contains a CPU are exact. The array is zero before. -/
theorem pwrlvl_limits_exact {t : Tree} (h : DepthFirst cfg t)
    (hzero : ∀ n, (t.nonCpu n).cpuStartIdx = 0 ∧ (t.nonCpu n).ncpus = 0) :
    ∃ t', psciUpdatePwrlvlLimits cfg t = some t' ∧ SameParents t t' ∧
      ∀ c < cfg.platformCoreCount, ∀ i < cfg.platMaxPwrLvl,
        LimitsExact cfg t i (t'.nonCpu (t.ancestor c i)) (t.ancestor c i) := by
  obtain ⟨t', idx, hcall, hsame, hok⟩ := h.limits hzero
  refine ⟨t', hcall, hsame, fun c hc i hi => ?_⟩
  have hrg := (hok i hi).range (t.ancestor c i) ((hsame.2 _).2.trans (h.level c hc i hi))
  dsimp only at hrg
  refine ⟨hrg, fun s => ?_⟩
  -- the slice does not leave the array, as its last CPU is one of the platform
  have hle : (t'.nonCpu (t.ancestor c i)).cpuStartIdx + (t'.nonCpu (t.ancestor c i)).ncpus ≤
      cfg.platformCoreCount := by
    have hself := (hrg c).mpr ⟨hc, rfl⟩
    have hlast := (hrg ((t'.nonCpu (t.ancestor c i)).cpuStartIdx +
      (t'.nonCpu (t.ancestor c i)).ncpus - 1)).mp (by omega)
    omega
  have hsli : range' (t'.nonCpu (t.ancestor c i)).cpuStartIdx (t'.nonCpu (t.ancestor c i)).ncpus =
        (range cfg.platformCoreCount).filter (t.ancestor · i = t.ancestor c i) := by
    refine List.Pairwise.eq_of_mem_iff pairwise_lt_range' (pairwise_lt_range.filter _) fun c' => ?_
    rw [mem_range'_1, hrg c']
    simp
  rw [State.psciGetReqLocalPwrStates, if_pos hle, hsli]

/-- Two CPUs in domains of their own, under several roots, of which the first has no CPU. -/
theorem pwrlvl_limits_exact_roots :
    ∃ t', psciUpdatePwrlvlLimits ⟨1, 2, 3, 1, 2, by decide, by decide, by decide⟩
        ⟨fun n => ⟨0, 0, 0, 1, n⟩, fun c => c + 1⟩ = some t' ∧
      (t'.nonCpu 2).cpuStartIdx = 1 ∧ (t'.nonCpu 2).ncpus = 1 := by
  let cfg : Config := ⟨1, 2, 3, 1, 2, by decide, by decide, by decide⟩
  have h : DepthFirst cfg ⟨fun n => ⟨0, 0, 0, 1, n⟩, fun c => c + 1⟩ := by
    refine ⟨fun c hc i hi => ?_, fun c _ i hi => ?_, fun i hi c₁ c c₂ h₁ h₂ _ heq => ?_⟩
    all_goals obtain rfl : i = 0 := Nat.lt_one_iff.mp hi
    · exact Nat.succ_lt_succ hc
    · rfl
    · simp only [Tree.ancestor] at heq ⊢
      omega
  obtain ⟨t', hcall, -, hex⟩ := pwrlvl_limits_exact h fun _ => ⟨rfl, rfl⟩
  have hrg : ∀ c, ((t'.nonCpu 2).cpuStartIdx ≤ c ∧
      c < (t'.nonCpu 2).cpuStartIdx + (t'.nonCpu 2).ncpus) ↔ c < 2 ∧ c + 1 = 2 :=
    (hex 1 (by decide) 0 (by decide)).1
  have h0 := hrg 0
  have h1 := hrg 1
  have h2 := hrg 2
  exact ⟨t', hcall, by omega, by omega⟩

/-- A described tree, with the limits of all the CPUs, is a power-domain tree. -/
def Described.powerTree {t : Tree} {idx : Nat → Nat} (h : Described cfg topology t₀)
    (hle : (describedDomains cfg topology).length ≤ cfg.psciNumNonCpuPwrDomains)
    (hsame : SameParents t₀ t)
    (hok : ∀ j < cfg.platMaxPwrLvl, LimitOk t₀ cfg.platformCoreCount j (t, idx)) :
    PowerTree cfg where
  toTree := t
  numDomains := (describedDomains cfg topology).length
  numDomains_le := hle
  level_pos n hn := by
    have hget := getElem?_eq_getElem hn
    rw [(hsame.2 n).2, (h.domain n _ _ hget).1]
    exact (domains_mem (mem_of_getElem? hget)).2.1
  level_le n hn := by
    have hget := getElem?_eq_getElem hn
    rw [(hsame.2 n).2, (h.domain n _ _ hget).1]
    exact (domains_mem (mem_of_getElem? hget)).2.2
  parent_lt n hn hlevel := by
    obtain ⟨e, he⟩ := h.parent hn (by rw [← (hsame.2 n).2]; exact hlevel)
    rw [(hsame.2 n).1]
    exact (List.getElem?_eq_some_iff.mp he).1
  level_parent n hn hlevel := by
    obtain ⟨e, he⟩ := h.parent hn (by rw [← (hsame.2 n).2]; exact hlevel)
    rw [(hsame.2 n).1, (hsame.2 _).2, (hsame.2 n).2, (h.domain _ e _ he).1]
  ancestor_lt c hc i hi := by
    obtain ⟨e, he⟩ := h.ancestor hc hi
    rw [hsame.ancestor]
    exact (List.getElem?_eq_some_iff.mp he).1
  level_ancestor c hc i hi := by
    obtain ⟨e, he⟩ := h.ancestor hc hi
    rw [hsame.ancestor, (hsame.2 _).2]
    exact (h.domain _ e _ he).1
  range_iff c hc i hi c' := by
    obtain ⟨e, he⟩ := h.ancestor hc hi
    rw [hsame.ancestor, hsame.ancestor]
    refine (hok i hi).range _ ?_ c'
    rw [(hsame.2 _).2]
    exact (h.domain _ e _ he).1

/-! ### The tree that `psci_setup` leaves -/

/-- With no domain between the roots and the CPUs the walk from the first CPU, whose node
has not been written, leaves the array. -/
theorem psciUpdatePwrlvlLimits_eq_none (hcor : 0 < cfg.platformCoreCount)
    (hlvl : 2 ≤ cfg.platMaxPwrLvl) (hcpu : t.cpuParent 0 = 0)
    (hroot : (t.nonCpu 0).parentNode = parentIndex 0) : psciUpdatePwrlvlLimits cfg t = none := by
  obtain ⟨n, hn⟩ := Nat.exists_eq_add_of_lt hcor
  obtain ⟨k, hk⟩ := Nat.exists_eq_add_of_le hlvl
  have hwalk : psciGetParentPwrDomainNodes cfg t 0 cfg.platMaxPwrLvl = none := by
    rw [psciGetParentPwrDomainNodes, hcpu, hk, show 2 + k = k + 1 + 1 by omega, parentNodes]
    by_cases h0 : 0 < cfg.psciNumNonCpuPwrDomains
    · have hout : ¬ parentIndex 0 < cfg.psciNumNonCpuPwrDomains := by
        have := cfg.psciNumNonCpuPwrDomains_lt
        rw [parentIndex]
        omega
      rw [if_pos h0, hroot, parentNodes, if_neg hout]
      rfl
    · rw [if_neg h0]
  rw [psciUpdatePwrlvlLimits, hn, zero_add, limitsFrom, hwalk]
  rfl

section

variable (h : psciSetup cfg topology platMyCorePos = some u) (hcor : cfg.platformCoreCount ≤ 256)
  (hdom : (describedDomains cfg topology).length ≤ 256)
include h hcor hdom

omit h in
/-- **`populate_power_domain_tree`** leaves the described tree and every node powered
down, provided that no index is cut. -/
theorem populatePowerDomainTree_described
    (hpop : populatePowerDomainTree topology (Setup.zero cfg) = some u)
    (hlim : psciUpdatePwrlvlLimits cfg u.tree = some t) (hpos : 0 < cfg.platformCoreCount) :
    Described cfg topology u.tree ∧
      (∀ n, (u.tree.nonCpu n).cpuStartIdx = 0 ∧ (u.tree.nonCpu n).ncpus = 0) ∧
      (∀ n < (describedDomains cfg topology).length, u.state.localState n = maxOffState cfg ∧
        n < cfg.psciNumNonCpuPwrDomains) ∧
      (∀ c < cfg.platformCoreCount, u.state.cpu c = ⟨.off, invalidPwrLvl cfg, maxOffState cfg⟩) ∧
      ∀ c, u.state.pos c = .off := by
  obtain ⟨w, hw, -, hj⟩ := populatePowerDomainTree_eq_some hpop
  have hfin : w.j = (describedCpus cfg topology).length ∨
      (describedCpus cfg topology = [] ∧ 0 < cfg.platMaxPwrLvl ∧
        (0 = 0 → 2 ≤ cfg.platMaxPwrLvl) ∧ 0 < 0 + (describedDomains cfg topology).length) :=
    populateLevels_j hw one_pos (zero_eq_ite _)
  have hcpus : (describedCpus cfg topology).length ≤ 256 := by
    rcases hfin with h | ⟨h, -⟩
    · rw [← h, hj]
      exact hcor
    · simp [h]
  obtain ⟨hpo, u₁, hnod, hadd⟩ := populatePowerDomainTree_added hpop hcpus hdom
  have hlen : (describedCpus cfg topology).length = cfg.platformCoreCount := by
    rcases hfin with h | ⟨hnone, -, hlvl, hsome⟩
    · rw [← h, hj]
    · -- otherwise the first CPU has no parent, and the limits cannot be set
      rw [zero_add] at hsome
      obtain ⟨⟨e, l⟩, hroot⟩ : ∃ x, (describedDomains cfg topology)[0]? = some x :=
        ⟨_, getElem?_eq_getElem hsome⟩
      obtain rfl : e = 0 := domains_head hroot
      have hcpu : u.tree.cpuParent 0 = 0 :=
        ((hadd.outside 0 (.inr (by simp [hnone]))).1).trans (hnod.other 0).1
      rw [psciUpdatePwrlvlLimits_eq_none hpos (hlvl rfl) hcpu (hpo.domain 0 _ _ hroot).2.1] at hlim
      cases hlim
  refine ⟨⟨fun n e l hn => ?_, fun c e hc => (hpo.cpu c e hc).1, hlen, hdom⟩,
    fun n => ?_, fun n hn => ?_, fun c hc => ?_, fun c => ?_⟩
  · have hnode := hpo.domain n e l hn
    exact ⟨hnode.1, hnode.2.1⟩
  · rw [(hadd.other n).1]
    exact hnod.limits n
  · have hbd := hnod.bound rfl n hn
    rw [zero_add] at hbd
    exact ⟨(hpo.domain n _ _ (getElem?_eq_getElem hn)).2.2.2, hbd⟩
  · exact (hpo.cpu c _ (getElem?_eq_getElem (hlen ▸ hc))).2
  · rw [hadd.pos, hnod.pos]
    rfl

omit hcor hdom in
theorem psciSetup_eq_some :
    ∃ u₀ nodes, populatePowerDomainTree topology (Setup.zero cfg) = some u₀ ∧
      psciUpdatePwrlvlLimits cfg u₀.tree = some u.tree ∧
      platMyCorePos < cfg.platformCoreCount ∧
      psciGetParentPwrDomainNodes cfg u.tree platMyCorePos cfg.platMaxPwrLvl = some nodes ∧
      u.state = (psciSetPwrDomainsToRun platMyCorePos nodes
        (psciInitReqLocalPwrStates u₀.state)).goto platMyCorePos .running := by
  obtain ⟨u₀, hu₀, h⟩ := bind_eq_some_iff.mp h
  obtain ⟨t, ht, h⟩ := bind_eq_some_iff.mp h
  rw [ite_none_right_eq_some] at h
  obtain ⟨hpos, h⟩ := h
  obtain ⟨nodes, hnod, h⟩ := bind_eq_some_iff.mp h
  cases h
  exact ⟨u₀, nodes, hu₀, ht, hpos, hnod, rfl⟩

/-- **The tree that `psci_setup` builds** from a descriptor of at most 256 domains, for at
most 256 CPUs. -/
theorem psciSetup_powerTree :
    ∃ T : PowerTree cfg, T.toTree = u.tree ∧
      T.numDomains = (describedDomains cfg topology).length ∧ TreeInv T u.state := by
  obtain ⟨u₀, nodes, hpop, hlim, hme, hnod, hst⟩ := psciSetup_eq_some h
  obtain ⟨hdesc, hzero, hloc, hcpu, hpos⟩ := populatePowerDomainTree_described hcor hdom
    hpop hlim (by omega)
  have hle : (describedDomains cfg topology).length ≤ cfg.psciNumNonCpuPwrDomains := by
    by_contra hlt
    have := (hloc cfg.psciNumNonCpuPwrDomains (by omega)).2
    omega
  obtain ⟨t, idx, ht, hsame, hok⟩ := (hdesc.depthFirst hle).limits hzero
  obtain rfl : t = u.tree := some.inj (ht.symm.trans hlim)
  let T : PowerTree cfg := hdesc.powerTree hle hsame hok
  have hnodes' : nodes = T.above platMyCorePos cfg.platMaxPwrLvl := by
    have := PowerTree.psciGetParentPwrDomainNodes_eq (T := T) hme le_rfl
    exact some.inj (hnod.symm.trans this)
  refine ⟨T, rfl, rfl, ?_⟩
  rw [hst, hnodes']
  exact treeInv_boot (fun n hn => (hloc n hn).1) hcpu rfl hpos hme

end

/-- The tree of two clusters, in which sample runs are executed. -/
theorem exists_clusters {q : Tree → Prop}
    (h : ∃ u, psciSetup clustersConfig [1, 2, 2, 2] 0 = some u ∧ q u.tree) :
    ∃ T : PowerTree clustersConfig, 0 < T.numDomains ∧ q T.toTree := by
  obtain ⟨u, hu, hq⟩ := h
  obtain ⟨T, hT, hnum, -⟩ := psciSetup_powerTree hu (by decide) (by decide)
  exact ⟨T, by rw [hnum]; decide, by rw [hT]; exact hq⟩

/-- **The power states of a system started by `psci_setup`**, in every state that any
interleaving of the calls reaches, where neither the CPUs nor the domains above them are
more than an `unsigned char` can index. -/
theorem power_states_ok (platMyCorePos : Nat) (u : Setup cfg)
    (hsetup : psciSetup cfg topology platMyCorePos = some u)
    (hcores : cfg.platformCoreCount ≤ 256)
    (hdomains : (describedDomains cfg topology).length ≤ 256) (es : List (Event cfg))
    (s : State cfg) (hrun : run (next u.tree) u.state es = some s) :
    PowerStatesOk u.tree (describedDomains cfg topology).length s := by
  obtain ⟨T, hT, hnum, hinv⟩ := psciSetup_powerTree hsetup hcores hdomains
  rw [← hT] at hrun ⊢
  rw [← hnum]
  exact (hinv.run hrun).powerStatesOk

/-- CPU 2, in the second cluster, is turned on; then CPU 0 suspends the system, is kept
from it by CPU 2, and CPU 2 is turned off. -/
def clustersRun : List (Event clustersConfig) :=
  [.cpuOn 0 2 true, .warmBoot 2, .cpuSuspend 0 (fun _ => 2) true false, .cpuOff 2 false, .setOff 2]

theorem power_states_ok_clusters :
    ∃ u s, psciSetup clustersConfig [1, 2, 2, 2] 0 = some u ∧
      run (next u.tree) u.state clustersRun = some s ∧
      s.localState 0 = maxOffState clustersConfig ∧
      PowerStatesOk u.tree (describedDomains clustersConfig [1, 2, 2, 2]).length s := by
  simp only [exists_and_left]
  refine exists_some_imp (q := fun u => ∃ s, run (next u.tree) u.state clustersRun = some s ∧
    s.localState 0 = maxOffState clustersConfig) (by decide +kernel)
    fun u hu ⟨s, hs, hloc⟩ => ⟨s, hs, hloc, ?_⟩
  exact power_states_ok 0 u hu (by decide) (by decide) clustersRun s hs

/-- CPU 128, of the second cluster, is turned on and off again. -/
def manyCoresRun : List (Event manyCoresConfig) :=
  [.cpuOn 0 128 true, .warmBoot 128, .cpuOff 128 false, .setOff 128]

/-- The node of CPU 256 is cut to that of CPU 0, which is so moved to the second cluster, and
the limits of that cluster start at CPU 128. When CPU 128 turns off the cluster is powered
down under CPU 0, which runs. -/
theorem cluster_off_under_running_cpu :
    ∃ u s, psciSetup manyCoresConfig [2, 128, 129] 0 = some u ∧
      run (next u.tree) u.state manyCoresRun = some s ∧
      s.pos 0 = .running ∧ s.req 1 0 = localStateRun manyCoresConfig ∧
      s.localState (u.tree.cpuParent 0) = maxOffState manyCoresConfig ∧
      ¬ PowerStatesOk u.tree (describedDomains manyCoresConfig [2, 128, 129]).length s := by
  simp only [exists_and_left]
  refine exists_some_imp (q := fun u => ∃ s, run (next u.tree) u.state manyCoresRun = some s ∧
    s.pos 0 = .running ∧ s.req 1 0 = localStateRun manyCoresConfig ∧
    s.localState (u.tree.cpuParent 0) = maxOffState manyCoresConfig) (by decide +kernel)
    fun u _ ⟨s, hs, hpos, hreq, hloc⟩ => ⟨s, hs, hpos, hreq, hloc, fun hok => ?_⟩
  have hrun := (hok.running 0 (by decide) hpos 0 (by decide)).2
  exact maxOffState_ne_run (hloc.symm.trans hrun)

end TrustedFirmware.Psci.Domains
