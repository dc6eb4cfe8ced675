import TrustedFirmware.Psci.PowerStates

/-!
# The tree that `psci_setup` builds

A descriptor lists, breadth first, how many children each domain has; `domains` and
`cpus` are what it describes, in the order in which `populate_power_domain_tree`
allocates the nodes. With at most 256 domains above the CPUs and at most 256 CPUs the
arrays hold exactly that (`tree_populated_iff`). With more, the index of a node is cut
to an `unsigned char`, and the nodes from 256 on overwrite the first ones.
-/

namespace TrustedFirmware.Psci.Domains

open Lib List Option Nat

variable {cfg : Config} {topology : List UInt8}

/-! ### What a descriptor describes -/

/-- The nodes that `m` entries of the descriptor from `p` on describe: each entry, as
often as it has children. -/
def children (topology : List UInt8) : (m p : Nat) → List Nat
  | 0, _ => []
  | m + 1, p => replicate (topology.getD p 0).toNat p ++ children topology m (p + 1)

/-- The domains from `level` down, where `m` entries from `p` on are those of the level
above: for each domain the entry of its parent, and its level. -/
def domains (topology : List UInt8) : (level m p : Nat) → List (Nat × Nat)
  | 0, _, _ => []
  | level + 1, m, p =>
    (children topology m p).map (·, level + 1) ++
      domains topology level (children topology m p).length (p + m)

/-- The CPUs below: for each CPU the entry of its parent. -/
def cpus (topology : List UInt8) : (level m p : Nat) → List Nat
  | 0, m, p => children topology m p
  | level + 1, m, p => cpus topology level (children topology m p).length (p + m)

variable {level m p e k j : Nat} {x : Nat × Nat} {u u' : Setup cfg} {w w' : Populate cfg}

theorem children_mem (h : e ∈ children topology m p) : p ≤ e ∧ e < p + m := by
  induction m generalizing p with
  | zero => simp [children] at h
  | succ m ih =>
    rcases mem_append.mp h with h | h
    · obtain rfl := eq_of_mem_replicate h
      omega
    · have := ih h
      omega

theorem children_sorted (topology : List UInt8) (m p : Nat) :
    (children topology m p).Pairwise (· ≤ ·) := by
  induction m generalizing p with
  | zero => exact List.Pairwise.nil
  | succ m ih =>
    refine pairwise_append.mpr ⟨?_, ih (p + 1), fun e he e' he' => ?_⟩
    · exact pairwise_replicate_of_refl
    · obtain rfl := eq_of_mem_replicate he
      have := children_mem he'
      omega

theorem domains_mem (h : x ∈ domains topology level m p) : p ≤ x.1 ∧ 0 < x.2 ∧ x.2 ≤ level := by
  induction level generalizing m p with
  | zero => simp [domains] at h
  | succ level ih =>
    rcases mem_append.mp h with h | h
    · obtain ⟨e, he, rfl⟩ := mem_map.mp h
      exact ⟨(children_mem he).1, succ_pos level, le_rfl⟩
    · have := ih h
      omega

/-- The entries of the parents never decrease from a domain to the next. -/
theorem domains_sorted (topology : List UInt8) (level m p : Nat) :
    (domains topology level m p).Pairwise (·.1 ≤ ·.1) := by
  induction level generalizing m p with
  | zero => exact List.Pairwise.nil
  | succ level ih =>
    refine pairwise_append.mpr ⟨?_, ih _ _, fun x hx y hy => ?_⟩
    · exact pairwise_map.mpr (children_sorted topology m p)
    · obtain ⟨e, he, rfl⟩ := mem_map.mp hx
      have hlt := (children_mem he).2
      have hle := (domains_mem hy).1
      exact hlt.le.trans hle

theorem cpus_sorted (topology : List UInt8) (level m p : Nat) :
    (cpus topology level m p).Pairwise (· ≤ ·) := by
  induction level generalizing m p with
  | zero => exact children_sorted topology m p
  | succ level ih => exact ih _ _

theorem domains_zero (topology : List UInt8) (level p : Nat) : domains topology level 0 p = [] := by
  induction level generalizing p with
  | zero => rfl
  | succ level ih => exact ih (p + 0)

theorem cpus_zero (topology : List UInt8) (level p : Nat) : cpus topology level 0 p = [] := by
  induction level generalizing p with
  | zero => rfl
  | succ level ih => exact ih (p + 0)

/-- The first domain is a root. -/
theorem domains_head (h : (domains topology level 1 0)[0]? = some x) : x.1 = 0 := by
  cases level with
  | zero => simp [domains] at h
  | succ =>
    rw [domains] at h
    by_cases hlen : (children topology 1 0).length = 0
    · rw [hlen, domains_zero, length_eq_zero_iff.mp hlen] at h
      simp at h
    · rw [getElem?_append_left (by simp; omega), getElem?_map] at h
      obtain ⟨e, he, rfl⟩ := map_eq_some_iff.mp h
      have := children_mem (mem_of_getElem? he)
      exact lt_one_iff.mp this.2

/-- The entry after the `p + m` ones is a domain at the first level, -/
theorem domains_first (level : Nat) (hle : p + m ≤ e)
    (hlt : e < p + m + (children topology m p).length) :
    ∃ e', (domains topology (level + 1) m p)[e - (p + m)]? = some (e', level + 1) := by
  have hi : e - (p + m) < (children topology m p).length := by omega
  rw [domains, getElem?_append_left (by simpa using hi), getElem?_map, getElem?_eq_getElem hi]
  exact ⟨_, rfl⟩

/-- or one of those below. -/
theorem domains_succ (level : Nat) (hle : p + m + (children topology m p).length ≤ e) :
    (domains topology (level + 1) m p)[e - (p + m)]? =
      (domains topology level (children topology m p).length (p + m))[
        e - (p + m + (children topology m p).length)]? := by
  rw [domains, getElem?_append_right (by simp; omega), length_map, Nat.sub_sub]

/-- The parent of a domain below the first level is a domain one level above it: the
entry after the `p + m` ones that are not of these domains. -/
theorem domains_parent {i l : Nat} (h : (domains topology level m p)[i]? = some (e, l)) :
    (l = level ∧ e < p + m) ∨ (l < level ∧ p + m ≤ e ∧
      ∃ e', (domains topology level m p)[e - (p + m)]? = some (e', l + 1)) := by
  induction level generalizing m p i with
  | zero => simp [domains] at h
  | succ level ih =>
    rw [domains] at h
    by_cases hi : i < (children topology m p).length
    · rw [getElem?_append_left (by simpa using hi), getElem?_map] at h
      obtain ⟨e₀, he₀, heq⟩ := map_eq_some_iff.mp h
      cases heq
      exact .inl ⟨rfl, (children_mem (mem_of_getElem? he₀)).2⟩
    · rw [getElem?_append_right (by simpa using hi), length_map] at h
      -- the parent is among the children of the first level, or deeper
      rcases ih h with ⟨rfl, hlt⟩ | ⟨hlt, hle, e', he'⟩
      · have hge : p + m ≤ e := (domains_mem (mem_of_getElem? h)).1
        exact .inr ⟨lt_succ_self l, hge, domains_first l hge hlt⟩
      · exact .inr ⟨by omega, by omega, e', by rw [domains_succ level hle]; exact he'⟩

theorem cpus_parent {i : Nat} (h : (cpus topology level m p)[i]? = some e) (hpos : 0 < level) :
    p + m ≤ e ∧ ∃ e', (domains topology level m p)[e - (p + m)]? = some (e', 1) := by
  induction level generalizing m p with
  | zero => exact absurd hpos (lt_irrefl 0)
  | succ level ih =>
    obtain rfl | hlvl := eq_or_ne level 0
    · have hmem := children_mem (mem_of_getElem? h)
      exact ⟨hmem.1, domains_first 0 hmem.1 hmem.2⟩
    · obtain ⟨hle, e', he'⟩ := ih h (by omega)
      exact ⟨by omega, e', by rw [domains_succ level hle]; exact he'⟩

/-! ### What the loops write -/

/-- The index that is stored as the parent of the children of entry `e`. -/
def parentIndex (e : Nat) : Nat := (e + (2 ^ 32 - 1)) % 2 ^ 32

theorem parentIndex_of_pos (hpos : 0 < e) (hlt : e < 2 ^ 32) : parentIndex e = e - 1 := by
  rw [parentIndex, show e + (2 ^ 32 - 1) = e - 1 + 2 ^ 32 by omega, add_mod_right]
  exact mod_eq_of_lt (by omega)

/-- The node of a CPU, or of a domain at level `l`, as it is initialised for a child of entry
`e`. -/
def NodeInit (u : Setup cfg) : (isCpu : Bool) → (n e l : Nat) → Prop
  | true, n, e, _ => u.tree.cpuParent n = parentIndex e ∧
    u.state.cpu n = ⟨.off, invalidPwrLvl cfg, maxOffState cfg⟩
  | false, n, e, l => (u.tree.nonCpu n).level = l ∧
    (u.tree.nonCpu n).parentNode = parentIndex e ∧ (u.tree.nonCpu n).lockIndex = n ∧
    u.state.localState n = maxOffState cfg

/-- The node has not been written. -/
def SameNode (u u' : Setup cfg) : (isCpu : Bool) → (n : Nat) → Prop
  | true, n => u'.tree.cpuParent n = u.tree.cpuParent n ∧ u'.state.cpu n = u.state.cpu n
  | false, n => u'.tree.nonCpu n = u.tree.nonCpu n ∧ u'.state.localState n = u.state.localState n

variable {isCpu : Bool} {u'' : Setup cfg}

theorem SameNode.refl (u : Setup cfg) (isCpu : Bool) (n : Nat) : SameNode u u isCpu n := by
  cases isCpu <;> exact ⟨rfl, rfl⟩

theorem SameNode.trans {n : Nat} (h : SameNode u u' isCpu n) (h' : SameNode u' u'' isCpu n) :
    SameNode u u'' isCpu n := by
  cases isCpu <;> exact ⟨h'.1.trans h.1, h'.2.trans h.2⟩

theorem NodeInit.congr {n l : Nat} (h : NodeInit u isCpu n e l) (hs : SameNode u u' isCpu n) :
    NodeInit u' isCpu n e l := by
  cases isCpu <;> simpa only [NodeInit, hs.1, hs.2] using h

/-- The nodes `ds` have been written to one of the arrays, from index `k` on. -/
structure Added (isCpu : Bool) (k : Nat) (ds : List (Nat × Nat)) (u u' : Setup cfg) : Prop where
  new : ∀ i e l, ds[i]? = some (e, l) → NodeInit u' isCpu (k + i) e l
  outside : ∀ n, n < k ∨ k + ds.length ≤ n → SameNode u u' isCpu n
  other : ∀ n, SameNode u u' (!isCpu) n
  limits : ∀ n, (u'.tree.nonCpu n).cpuStartIdx = (u.tree.nonCpu n).cpuStartIdx ∧
    (u'.tree.nonCpu n).ncpus = (u.tree.nonCpu n).ncpus
  bound : isCpu = false → ∀ i < ds.length, k + i < cfg.psciNumNonCpuPwrDomains
  pos : u'.state.pos = u.state.pos

theorem Added.refl (isCpu : Bool) (k : Nat) (u : Setup cfg) : Added isCpu k [] u u where
  new i e l h := by simp at h
  outside n _ := .refl u isCpu n
  other n := .refl u _ n
  limits _ := ⟨rfl, rfl⟩
  bound _ i hi := absurd hi (not_lt_zero i)
  pos := rfl

theorem Added.trans {as bs : List (Nat × Nat)} (h : Added isCpu k as u u')
    (h' : Added isCpu (k + as.length) bs u' u'') : Added isCpu k (as ++ bs) u u'' where
  new i e l hi := by
    by_cases hlt : i < as.length
    · rw [getElem?_append_left hlt] at hi
      exact (h.new i e l hi).congr (h'.outside (k + i) (by omega))
    · rw [getElem?_append_right (by omega)] at hi
      have := h'.new _ e l hi
      rwa [show k + as.length + (i - as.length) = k + i by omega] at this
  outside n hn := by
    rw [length_append] at hn
    exact (h.outside n (by omega)).trans (h'.outside n (by omega))
  other n := (h.other n).trans (h'.other n)
  limits n := ⟨(h'.limits n).1.trans (h.limits n).1, (h'.limits n).2.trans (h.limits n).2⟩
  bound hcpu i hi := by
    rw [length_append] at hi
    by_cases hlt : i < as.length
    · exact h.bound hcpu i hlt
    · have := h'.bound hcpu (i - as.length) (by omega)
      omega
  pos := h'.pos.trans h.pos

theorem psciInitPwrDomainNode_added
    (h : psciInitPwrDomainNode u j (parentIndex e) level = some u') :
    Added (decide (level = 0)) j [(e, level)] u u' := by
  have hone : ∀ {i e' l : Nat}, [(e, level)][i]? = some (e', l) → i = 0 ∧ e = e' ∧ level = l := by
    intro i e' l hi
    obtain ⟨hi, heq⟩ := List.getElem?_eq_some_iff.mp hi
    obtain rfl : i = 0 := by simpa using hi
    exact ⟨rfl, Prod.mk.inj heq⟩
  have hne : ∀ {n : Nat}, n < j ∨ j + [(e, level)].length ≤ n → n ≠ j := by
    intro n hn
    rw [length_singleton] at hn
    omega
  cases level with
  | zero =>
    rw [psciInitPwrDomainNode, if_neg (lt_irrefl 0), ite_none_right_eq_some] at h
    cases h.2
    refine ⟨fun i e' l hi => ?_, fun n hn => ?_, fun n => ⟨rfl, rfl⟩, fun n => ⟨rfl, rfl⟩,
      (fun hcpu => by cases hcpu), rfl⟩
    · obtain ⟨rfl, rfl, rfl⟩ := hone hi
      simp [NodeInit, State.setCpu]
    · simp [SameNode, State.setCpu, hne hn]
  | succ level =>
    rw [psciInitPwrDomainNode, if_pos (succ_pos level), ite_none_right_eq_some] at h
    cases h.2
    refine ⟨fun i e' l hi => ?_, fun n hn => ?_, fun n => ⟨rfl, rfl⟩, fun n => ?_,
      fun _ i hi => ?_, rfl⟩
    · obtain ⟨rfl, rfl, rfl⟩ := hone hi
      simp [NodeInit, Tree.setNode, State.setNonCpuPdNodeLocalState]
    · simp [SameNode, Tree.setNode, State.setNonCpuPdNodeLocalState, hne hn]
    · obtain rfl | hnj := eq_or_ne n j
      · simp [Tree.setNode]
      · simp [Tree.setNode, hnj]
    · obtain rfl : i = 0 := by simpa using hi
      exact h.1

theorem initChildren_added {n : Nat} (h : initChildren p level n j u = some u')
    (hj : j + n ≤ 256) : Added (decide (level = 0)) j (replicate n (p, level)) u u' := by
  induction n generalizing j u with
  | zero =>
    cases h
    exact .refl _ j _
  | succ n ih =>
    rw [initChildren, mod_eq_of_lt (by omega)] at h
    obtain ⟨u₁, hu₁, h⟩ := bind_eq_some_iff.mp h
    exact (psciInitPwrDomainNode_added hu₁).trans (ih h (by rw [length_singleton]; omega))

/-- No index gets beyond an `unsigned char`. -/
theorem initChildren_beyond {n : Nat} (h : initChildren p level n j u = some u') (isCpu : Bool) :
    ∀ i ≥ 256, SameNode u u' isCpu i := by
  induction n generalizing j u with
  | zero =>
    cases h
    exact fun i _ => .refl _ isCpu i
  | succ n ih =>
    intro i hi
    obtain ⟨u₁, hu₁, h⟩ := bind_eq_some_iff.mp h
    refine SameNode.trans ?_ (ih h i hi)
    have hadd := psciInitPwrDomainNode_added hu₁
    obtain rfl | hoth := Bool.eq_or_eq_not isCpu (decide (level = 0))
    · exact hadd.outside i (.inr (by rw [length_singleton]; omega))
    · exact hoth ▸ hadd.other i

/-! ### The loops of `populate_power_domain_tree` -/

theorem populateEntry_eq_some (h : populateEntry topology level w = some w') :
    ∃ u, initChildren w.parentNodeIndex level (topology.getD w.parentNodeIndex 0).toNat
        w.nodeIndex w.setup = some u ∧
      w' = { setup := u
             j := w.nodeIndex + (topology.getD w.parentNodeIndex 0).toNat
             nodeIndex := w.nodeIndex + (topology.getD w.parentNodeIndex 0).toNat
             parentNodeIndex := w.parentNodeIndex + 1
             numNodesAtNextLvl :=
               w.numNodesAtNextLvl + (topology.getD w.parentNodeIndex 0).toNat } := by
  rw [populateEntry, ite_none_right_eq_some] at h
  obtain ⟨entry, hen, h⟩ := bind_eq_some_iff.mp h.2
  obtain ⟨u, hu, h⟩ := bind_eq_some_iff.mp h
  rw [getD_eq_getElem?_getD, hen]
  exact ⟨u, hu, (some.inj h).symm⟩

theorem populateEntries_counts (h : populateEntries topology level m w = some w') :
    w'.nodeIndex = w.nodeIndex + (children topology m w.parentNodeIndex).length ∧
    w'.parentNodeIndex = w.parentNodeIndex + m ∧
    w'.numNodesAtNextLvl = w.numNodesAtNextLvl + (children topology m w.parentNodeIndex).length ∧
    (0 < m → w'.j = w'.nodeIndex) := by
  induction m generalizing w with
  | zero =>
    cases h
    exact ⟨rfl, rfl, rfl, fun h => absurd h (lt_irrefl 0)⟩
  | succ m ih =>
    obtain ⟨w₁, hw₁, h⟩ := bind_eq_some_iff.mp h
    obtain ⟨u, -, rfl⟩ := populateEntry_eq_some hw₁
    obtain ⟨hnode, hpar, hnext, hj⟩ := ih h
    simp only at hnode hpar hnext
    rw [children, length_append, length_replicate]
    refine ⟨by omega, by omega, by omega, fun _ => ?_⟩
    cases m with
    | zero =>
      cases h
      rfl
    | succ m => exact hj (succ_pos m)

theorem populateEntries_added (h : populateEntries topology level m w = some w')
    (hlen : w.nodeIndex + (children topology m w.parentNodeIndex).length ≤ 256) :
    Added (decide (level = 0)) w.nodeIndex
      ((children topology m w.parentNodeIndex).map (·, level)) w.setup w'.setup := by
  induction m generalizing w with
  | zero =>
    cases h
    exact .refl _ _ _
  | succ m ih =>
    obtain ⟨w₁, hw₁, h⟩ := bind_eq_some_iff.mp h
    obtain ⟨u, hu, rfl⟩ := populateEntry_eq_some hw₁
    rw [children, length_append, length_replicate] at hlen
    have hfst := initChildren_added hu (by omega)
    have hrest := ih h (by simp only; omega)
    rw [children, map_append, map_replicate]
    refine hfst.trans ?_
    rw [length_replicate]
    exact hrest

theorem populateEntries_beyond (h : populateEntries topology level m w = some w') (isCpu : Bool) :
    ∀ i ≥ 256, SameNode w.setup w'.setup isCpu i := by
  induction m generalizing w with
  | zero =>
    cases h
    exact fun i _ => .refl _ isCpu i
  | succ m ih =>
    intro i hi
    obtain ⟨w₁, hw₁, h⟩ := bind_eq_some_iff.mp h
    obtain ⟨u, hu, rfl⟩ := populateEntry_eq_some hw₁
    exact (initChildren_beyond hu isCpu i hi).trans (ih h i hi)

theorem populateLevels_beyond (h : populateLevels topology level m w = some w') (isCpu : Bool) :
    ∀ i ≥ 256, SameNode w.setup w'.setup isCpu i := by
  induction level generalizing m w with
  | zero =>
    have hsame := populateEntries_beyond h isCpu
    exact hsame
  | succ level ih =>
    intro i hi
    obtain ⟨w₁, hw₁, h⟩ := bind_eq_some_iff.mp h
    have hsame := populateEntries_beyond hw₁ isCpu i hi
    exact SameNode.trans hsame (ih h i hi)

/-- **The arrays hold what the descriptor describes**: first the domains, then the CPUs,
where none of them has an index beyond an `unsigned char`. -/
theorem populateLevels_added (h : populateLevels topology level m w = some w')
    (hk : w.nodeIndex = (if level = 0 then 0 else k))
    (hdom : k + (domains topology level m w.parentNodeIndex).length ≤ 256)
    (hcpus : (cpus topology level m w.parentNodeIndex).length ≤ 256) :
    ∃ u, Added false k (domains topology level m w.parentNodeIndex) w.setup u ∧
      Added true 0 ((cpus topology level m w.parentNodeIndex).map (·, 0)) u w'.setup := by
  induction level generalizing m k w with
  | zero =>
    rw [if_pos rfl] at hk
    have hadd := populateEntries_added h (by rw [hk, zero_add]; exact hcpus)
    rw [hk] at hadd
    exact ⟨w.setup, .refl _ k _, hadd⟩
  | succ level ih =>
    obtain ⟨w₁, hw₁, h⟩ := bind_eq_some_iff.mp h
    rw [if_neg (succ_ne_zero level)] at hk
    rw [domains, length_append, length_map] at hdom
    obtain ⟨hnode, hpar, hnext, -⟩ := populateEntries_counts hw₁
    simp only [zero_add] at hnode hpar hnext
    have hfst := populateEntries_added hw₁ (by simp only; omega)
    rw [hnext] at h
    obtain ⟨u, hu, hadd⟩ := ih (k := k + (children topology m w.parentNodeIndex).length) h
      (by simp only [hnode, hk]) (by simp only [hpar]; omega)
      (by simp only [hpar]; exact hcpus)
    simp only [hk] at hfst
    simp only [hpar] at hu hadd
    refine ⟨u, hfst.trans ?_, hadd⟩
    rw [length_map]
    exact hu

theorem populateLevels_zero (h : populateLevels topology level 0 w = some w') : w'.j = w.j := by
  induction level generalizing w with
  | zero =>
    cases h
    rfl
  | succ level ih =>
    have hj := ih h
    exact hj

/-- The value that `j` has in the end is the number of CPUs, unless a level between the
roots and the CPUs has no domain. -/
theorem populateLevels_j (h : populateLevels topology level m w = some w') (hm : 0 < m)
    (hk : w.nodeIndex = (if level = 0 then 0 else k)) :
    w'.j = (cpus topology level m w.parentNodeIndex).length ∨
      (cpus topology level m w.parentNodeIndex = [] ∧ 0 < level ∧ (k = 0 → 2 ≤ level) ∧
        0 < k + (domains topology level m w.parentNodeIndex).length) := by
  induction level generalizing m k w with
  | zero =>
    rw [if_pos rfl] at hk
    obtain ⟨hnode, -, -, hj⟩ := populateEntries_counts h
    rw [hj hm, hnode]
    simp only [hk, zero_add]
    exact .inl rfl
  | succ level ih =>
    obtain ⟨w₁, hw₁, h⟩ := bind_eq_some_iff.mp h
    rw [if_neg (succ_ne_zero level)] at hk
    obtain ⟨hnode, hpar, hnext, hj⟩ := populateEntries_counts hw₁
    simp only [zero_add] at hnode hpar hnext
    rw [hnext] at h
    rw [cpus, domains, length_append, length_map]
    by_cases hkids : (children topology m w.parentNodeIndex).length = 0
    · -- no domain at this level, hence nothing below
      rw [hkids] at h ⊢
      rw [domains_zero, cpus_zero, populateLevels_zero h, hj hm, hnode, hk, hkids]
      by_cases hk0 : k = 0
      · exact .inl (by simp [hk0])
      · exact .inr ⟨rfl, succ_pos level, fun h => absurd h hk0, by omega⟩
    · have hrec := ih (k := k + (children topology m w.parentNodeIndex).length) h (by omega)
        (by simp only [hnode, hk])
      simp only [hpar] at hrec
      rcases hrec with hj' | ⟨hcpus, hlvl, -, -⟩
      · exact .inl hj'
      · exact .inr ⟨hcpus, succ_pos level, fun _ => by omega, by omega⟩

/-! ### The tree before the limits are set -/

variable (cfg) in
/-- The domains that a descriptor describes, from the roots down. -/
def describedDomains (topology : List UInt8) : List (Nat × Nat) :=
  domains topology cfg.platMaxPwrLvl 1 0

variable (cfg) in
/-- The CPUs that a descriptor describes. -/
def describedCpus (topology : List UInt8) : List Nat :=
  cpus topology cfg.platMaxPwrLvl 1 0

variable (cfg) in
/-- The tree is the one that the descriptor describes, up to the limits. -/
structure Described (topology : List UInt8) (t : Tree) : Prop where
  domain : ∀ n e l, (describedDomains cfg topology)[n]? = some (e, l) →
    (t.nonCpu n).level = l ∧ (t.nonCpu n).parentNode = parentIndex e
  cpu : ∀ c e, (describedCpus cfg topology)[c]? = some e → t.cpuParent c = parentIndex e
  length_cpus : (describedCpus cfg topology).length = cfg.platformCoreCount
  length_domains : (describedDomains cfg topology).length ≤ 256

variable (cfg) in
/-- Every node holds what the descriptor says: its parent, its level, and a lock of its own. -/
structure Populated (topology : List UInt8) (u : Setup cfg) : Prop where
  cpu : ∀ c e, (describedCpus cfg topology)[c]? = some e → NodeInit u true c e 0
  domain : ∀ n e l, (describedDomains cfg topology)[n]? = some (e, l) → NodeInit u false n e l

section

variable {topology : List UInt8}

theorem populatePowerDomainTree_eq_some
    (h : populatePowerDomainTree topology (Setup.zero cfg) = some u) :
    ∃ w, populateLevels topology cfg.platMaxPwrLvl 1 ⟨Setup.zero cfg, 0, 0, 0, 0⟩ = some w ∧
      w.setup = u ∧ w.j = cfg.platformCoreCount := by
  obtain ⟨w, hw, hu⟩ := bind_eq_some_iff.mp h
  rw [ite_none_right_eq_some] at hu
  exact ⟨w, hw, some.inj hu.2, hu.1⟩

theorem zero_eq_ite (l : Nat) : (0 : Nat) = if l = 0 then 0 else 0 := by
  split <;> rfl

/-- First the domains are written, then the CPUs. -/
theorem populatePowerDomainTree_added
    (h : populatePowerDomainTree topology (Setup.zero cfg) = some u)
    (hcpus : (describedCpus cfg topology).length ≤ 256)
    (hdom : (describedDomains cfg topology).length ≤ 256) :
    Populated cfg topology u ∧ ∃ u₁, Added false 0 (describedDomains cfg topology) (.zero cfg) u₁ ∧
      Added true 0 ((describedCpus cfg topology).map (·, 0)) u₁ u := by
  obtain ⟨w, hw, rfl, -⟩ := populatePowerDomainTree_eq_some h
  obtain ⟨u₁, hnod, hadd⟩ := populateLevels_added hw (zero_eq_ite _)
    (by rw [zero_add]; exact hdom) hcpus
  refine ⟨⟨fun c e hc => ?_, fun n e l hn => ?_⟩, u₁, hnod, hadd⟩
  · have hnew := hadd.new c e 0 (by simp only [getElem?_map]; exact hc ▸ rfl)
    rwa [zero_add] at hnew
  · have hnew := hnod.new n e l hn
    rw [zero_add] at hnew
    exact hnew.congr (hadd.other n)

/-- **`populate_power_domain_tree`** builds the tree that the descriptor describes exactly if
neither the CPUs nor the domains are more than an `unsigned char` can index. -/
theorem tree_populated_iff (hpop : populatePowerDomainTree topology (Setup.zero cfg) = some u)
    (hleaves : (describedCpus cfg topology).length = cfg.platformCoreCount) :
    Populated cfg topology u ↔
      cfg.platformCoreCount ≤ 256 ∧ (describedDomains cfg topology).length ≤ 256 := by
  constructor
  · intro h
    obtain ⟨w, hw, rfl, -⟩ := populatePowerDomainTree_eq_some hpop
    -- the node at index 256 has never been written
    have hbey := fun isCpu => populateLevels_beyond hw isCpu 256 le_rfl
    constructor
    · by_contra hlt
      have hget := getElem?_eq_getElem
        (show 256 < (describedCpus cfg topology).length by omega)
      have hcpu := (h.cpu 256 _ hget).2
      rw [(hbey true).2] at hcpu
      cases hcpu
    · by_contra hlt
      have hget := getElem?_eq_getElem
        (show 256 < (describedDomains cfg topology).length by omega)
      have hlvl := (h.domain 256 _ _ hget).1
      have hpos := (domains_mem (mem_of_getElem? hget)).2.1
      rw [(hbey false).1] at hlvl
      exact absurd hlvl hpos.ne
  · intro ⟨hcor, hdom⟩
    exact (populatePowerDomainTree_added hpop (hleaves ▸ hcor) hdom).1

end

/-- A platform with a system domain over two clusters of two CPUs. -/
def clustersConfig : Config :=
  ⟨2, 4, 4, 1, 2, by decide, by decide, by decide⟩

theorem tree_populated_iff_clusters :
    ∃ u, populatePowerDomainTree [1, 2, 2, 2] (Setup.zero clustersConfig) = some u ∧
      Populated clustersConfig [1, 2, 2, 2] u := by
  refine exists_some_imp (q := fun _ => True) (by decide +kernel) fun u hu _ => ?_
  exact (tree_populated_iff hu (by decide)).mpr (by decide)

/-- A platform with two clusters, of 128 and of 129 CPUs. -/
def manyCoresConfig : Config :=
  ⟨1, 257, 257, 1, 2, by decide, by decide, by decide⟩

/-- The node of CPU 256 is written over the one of CPU 0. -/
theorem node_index_cut :
    ∃ u, populatePowerDomainTree [2, 128, 129] (Setup.zero manyCoresConfig) = some u ∧
      (describedCpus manyCoresConfig [2, 128, 129]).length = manyCoresConfig.platformCoreCount ∧
      u.tree.cpuParent 0 = 1 ∧ ¬ Populated manyCoresConfig [2, 128, 129] u := by
  refine exists_some_imp (by decide +kernel)
    fun u _ hpar => ⟨by decide +kernel, hpar, fun h => ?_⟩
  have hcpu := (h.cpu 0 1 (by decide +kernel)).1
  rw [hpar] at hcpu
  cases hcpu

variable {c n : Nat}

variable {t : Tree}

section

variable (h : Described cfg topology t)
  (hx : (describedDomains cfg topology)[e - (0 + 1)]? = some x)
include h hx

/-- The parent that is stored for the children of entry `e`, which is a domain. -/
theorem Described.parentIndex_eq {l : Nat} (hpos : 1 ≤ e) (hl : x.2 = l) :
    ∃ e', (describedDomains cfg topology)[parentIndex e]? = some (e', l) := by
  have hlt := (List.getElem?_eq_some_iff.mp hx).1
  have hlen := h.length_domains
  rw [parentIndex_of_pos hpos (by omega)]
  exact ⟨x.1, by rw [← hl]; exact hx⟩

omit hx in
/-- The domain at level `i + 1` above a CPU is one that is described as such. -/
theorem Described.ancestor (hc : c < cfg.platformCoreCount) {i : Nat}
    (hi : i < cfg.platMaxPwrLvl) :
    ∃ e, (describedDomains cfg topology)[t.ancestor c i]? = some (e, i + 1) := by
  induction i with
  | zero =>
    have hget := getElem?_eq_getElem (show c < (describedCpus cfg topology).length by
      rw [h.length_cpus]; exact hc)
    obtain ⟨hpos, e', he'⟩ := cpus_parent hget hi
    rw [Tree.ancestor, h.cpu c _ hget]
    exact h.parentIndex_eq he' (by omega) rfl
  | succ i ih =>
    obtain ⟨e, he⟩ := ih (by omega)
    rw [Tree.ancestor, (h.domain _ e _ he).2]
    rcases domains_parent he with ⟨hl, -⟩ | ⟨-, hpos, e', he'⟩
    · omega
    · exact h.parentIndex_eq he' (by omega) rfl

omit hx in
/-- The parent of a domain below the roots is one that is described as such. -/
theorem Described.parent (hn : n < (describedDomains cfg topology).length)
    (hlvl : (t.nonCpu n).level < cfg.platMaxPwrLvl) :
    ∃ e, (describedDomains cfg topology)[(t.nonCpu n).parentNode]? =
      some (e, (t.nonCpu n).level + 1) := by
  have hget := getElem?_eq_getElem hn
  obtain ⟨hl, hpar⟩ := h.domain n _ _ hget
  rw [hpar, hl]
  rcases domains_parent hget with ⟨hroot, -⟩ | ⟨-, hpos, e', he'⟩
  · omega
  · exact h.parentIndex_eq he' (by omega) rfl

omit h hx in
theorem parentIndex_mono {e' : Nat} (hpos : 0 < e) (hle : e ≤ e') (hlt : e' < 2 ^ 32) :
    parentIndex e ≤ parentIndex e' := by
  rw [parentIndex_of_pos hpos (by omega), parentIndex_of_pos (by omega) hlt]
  omega

theorem Described.entry_lt : e < 2 ^ 32 := by
  have hlt := (List.getElem?_eq_some_iff.mp hx).1
  have hlen := h.length_domains
  omega

omit hx in
/-- **Depth first.** The domain at a level above a CPU never decreases from a CPU to the
next. -/
theorem Described.ancestor_mono {c' i : Nat} (hle : c ≤ c') (hc' : c' < cfg.platformCoreCount)
    (hi : i < cfg.platMaxPwrLvl) : t.ancestor c i ≤ t.ancestor c' i := by
  have hc : c < cfg.platformCoreCount := by omega
  induction i with
  | zero =>
    have hlt : c < (describedCpus cfg topology).length := by rw [h.length_cpus]; exact hc
    have hlt' : c' < (describedCpus cfg topology).length := by rw [h.length_cpus]; exact hc'
    have hget := getElem?_eq_getElem hlt
    have hget' := getElem?_eq_getElem hlt'
    obtain ⟨hpos, -, -⟩ := cpus_parent hget hi
    obtain ⟨-, x', hx'⟩ := cpus_parent hget' hi
    rw [Tree.ancestor, Tree.ancestor, h.cpu c _ hget, h.cpu c' _ hget']
    refine parentIndex_mono (by omega) ?_ (h.entry_lt hx')
    exact (cpus_sorted topology _ 1 0).rel_get_of_le hle
  | succ i ih =>
    obtain ⟨e, he⟩ := h.ancestor hc (show i < cfg.platMaxPwrLvl by omega)
    obtain ⟨e', he'⟩ := h.ancestor hc' (show i < cfg.platMaxPwrLvl by omega)
    rw [Tree.ancestor, Tree.ancestor, (h.domain _ e _ he).2, (h.domain _ e' _ he').2]
    obtain ⟨hlt, hget⟩ := List.getElem?_eq_some_iff.mp he
    obtain ⟨hlt', hget'⟩ := List.getElem?_eq_some_iff.mp he'
    have hen : e ≤ e' := by
      have hsrt : (describedDomains cfg topology)[t.ancestor c i].1 ≤
          (describedDomains cfg topology)[t.ancestor c' i].1 :=
        (domains_sorted topology cfg.platMaxPwrLvl 1 0).rel_get_of_le (ih (by omega))
      rwa [hget, hget'] at hsrt
    rcases domains_parent he with ⟨hl, -⟩ | ⟨-, hpos, -⟩
    · omega
    · rcases domains_parent he' with ⟨hl, -⟩ | ⟨-, -, x', hx'⟩
      · omega
      · exact parentIndex_mono (by omega) hen (h.entry_lt hx')

end

end TrustedFirmware.Psci.Domains
