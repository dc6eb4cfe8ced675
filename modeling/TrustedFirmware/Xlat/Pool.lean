import TrustedFirmware.Xlat.Undo

/-!
# The pool of sub-tables

The count of a sub-table is the only record of whether it is in use. `PoolOk` says what
the allocator relies on: a table with a count of zero is empty and no descriptor leads
to it, and exactly one descriptor leads to each of the others. It holds in every state
that is reached without stranding tables (`table_pool_ok`).

Descriptors are followed here as the hardware does, by their type and address field.
-/

namespace TrustedFirmware.Xlat

open Lib Lib.Radix List Option XlatState

/-! ### Table descriptors in reach -/

/-- A table descriptor with the address of sub-table `j`. -/
def PointsTo (ctx : XlatCtx) (desc : U64) (j : Nat) : Prop :=
  j < ctx.tablesNum ∧ desc &&& descMask = tableDesc ∧ desc &&& tableAddrMask = ctx.tableAddr j

/-- From the first `n` entries, of depth `d`, of a table, descriptors lead to the place
`p`, which has a table descriptor for `j`. Entries of depth 0 are pages. -/
def RefersAt (ctx : XlatCtx) (s : XlatState) (j : Nat) (p : TableRef × Nat) :
    Nat → TableRef → Nat → Prop
  | 0, _, _ => False
  | d + 1, ref, n => ∃ i < n, ∃ j', PointsTo ctx (s.read ref i) j' ∧
      (j = j' ∧ p = (ref, i) ∨ RefersAt ctx s j p d (.sub j') xlatTableEntries)

/-- The place `p` in reach from the base table has a table descriptor for `j`. -/
def RefersTo (ctx : XlatCtx) (s : XlatState) (j : Nat) (p : TableRef × Nat) : Prop :=
  RefersAt ctx s j p ctx.baseDepth .base ctx.baseTableEntries

/-- The table pool is well formed. -/
structure PoolOk (ctx : XlatCtx) (s : XlatState) : Prop where
  free : ∀ j < ctx.tablesNum, s.tablesMappedRegions j = 0 →
    (∀ i < xlatTableEntries, s.tables j i = invalidDesc) ∧ ∀ p, ¬ RefersTo ctx s j p
  used : ∀ j < ctx.tablesNum, s.tablesMappedRegions j ≠ 0 → ∃! p, RefersTo ctx s j p
  empty : ∀ j, xlatTableGetEmpty ctx s = some j →
    (∀ i < xlatTableEntries, s.tables j i = invalidDesc) ∧ ∀ p, ¬ RefersTo ctx s j p

variable {ctx : XlatCtx} {l : Plan U64} {s s' : XlatState} {ref : TableRef}
  {p q : TableRef × Nat} {b d n i j j' : Nat} {desc : U64}

theorem pointsTo_tableDescOf (hj : j < ctx.tablesNum) : PointsTo ctx (ctx.tableDescOf j) j :=
  ⟨hj, XlatCtx.tableDescOf_and_descMask hj, XlatCtx.tableDescOf_and_tableAddrMask hj⟩

/-- Among descriptors that follow a plan, those of tables are the table descriptors. -/
theorem PointsTo.eq (h : PointsTo ctx desc j)
    (htype : ∀ d x a, l.leaf d x a → a &&& descMask = leafType d)
    (hf : (s.node ctx (d + 1) desc).Follows geo l b) : desc = ctx.tableDescOf j := by
  obtain ⟨hj, hmask, haddr⟩ := h
  cases hn : s.node ctx (d + 1) desc with
  | empty =>
    rw [node_eq_empty hn] at hmask
    cases hmask
  | leaf =>
    rw [hn] at hf
    have hleaf := htype _ _ _ hf
    rw [← node_eq_leaf hn, hmask, leafType, if_neg (Nat.succ_ne_zero d)] at hleaf
    cases hleaf
  | table =>
    obtain ⟨hk, rfl, -, -⟩ := node_eq_table hn
    rw [XlatCtx.tableDescOf_and_tableAddrMask hk] at haddr
    rw [XlatCtx.tableAddr_inj hk hj haddr]

/-- The entries of a table follow a plan whose values are block and page
descriptors. -/
def EntriesFollow (ctx : XlatCtx) (l : Plan U64) (s : XlatState) (d : Nat) (ref : TableRef)
    (n : Nat) : Prop :=
  ∃ x, ∀ i < n, (s.node ctx d (s.read ref i)).Follows geo l (geo.kidAt x d i)

/-- An entry that points to a table stands for it. -/
theorem EntriesFollow.node (h : EntriesFollow ctx l s (d + 1) ref n)
    (htype : ∀ d x a, l.leaf d x a → a &&& descMask = leafType d) (hi : i < n)
    (hp : PointsTo ctx (s.read ref i) j) :
    s.kids ctx (d + 1) ref n i =
      .table j (s.tablesMappedRegions j) (s.kids ctx d (.sub j) xlatTableEntries) ∧
    EntriesFollow ctx l s d (.sub j) xlatTableEntries := by
  obtain ⟨x, hx⟩ := h
  have hf := hx i hi
  have hdesc := hp.eq htype hf
  rw [hdesc, node_tableDescOf hp.1] at hf
  rw [kids_of_lt hi, hdesc, node_tableDescOf hp.1]
  refine ⟨rfl, geo.kidAt x (d + 1) i, fun i' hi' => ?_⟩
  have hkid := hf.2.2 i' hi'
  rw [kids_of_lt hi'] at hkid
  exact hkid

section

variable (htype : ∀ d x a, l.leaf d x a → a &&& descMask = leafType d)
  (hf : EntriesFollow ctx l s d ref n)
include htype hf

omit hf in
/-- A table in reach is in the tree of the entry that leads to it. -/
theorem EntriesFollow.has
    (hf : EntriesFollow ctx l s (d + 1) ref n) (hi : i < n) (hp : PointsTo ctx (s.read ref i) j')
    (hrest : j = j' ∧ p = (ref, i) ∨ RefersAt ctx s j p d (.sub j') xlatTableEntries) :
    (s.kids ctx (d + 1) ref n i).Has j := by
  induction d generalizing ref n i j' with
  | zero =>
    obtain ⟨rfl, -⟩ := hrest.resolve_right id
    rw [(hf.node htype hi hp).1]
    exact .inl rfl
  | succ d ih =>
    obtain ⟨hnode, hsub⟩ := hf.node htype hi hp
    rw [hnode]
    rcases hrest with ⟨rfl, -⟩ | ⟨i', hi', k, hk, hrest⟩
    · exact .inl rfl
    · exact .inr ⟨i', ih hsub hi' hk hrest⟩

theorem RefersAt.has (h : RefersAt ctx s j p d ref n) :
    ∃ i < n, (s.kids ctx d ref n i).Has j := by
  cases d with
  | zero => exact h.elim
  | succ d =>
    obtain ⟨i, hi, j', hp, hrest⟩ := h
    exact ⟨i, hi, hf.has htype hi hp hrest⟩

omit htype hf in
/-- A table in the tree is in reach. -/
theorem exists_refersAt (hi : i < n) (h : (s.node ctx d (s.read ref i)).Has j) :
    ∃ p, RefersAt ctx s j p d ref n := by
  refine has_induction (P := fun d desc => ∀ ref n i, i < n → s.read ref i = desc →
    ∃ p, RefersAt ctx s j p d ref n) (fun d hj ref n i hi hdesc => ?_)
    (fun d k i' hk hi' ih ref n i hi hdesc => ?_) h ref n i hi rfl
  · exact ⟨(ref, i), i, hi, j, hdesc ▸ pointsTo_tableDescOf hj, .inl ⟨rfl, rfl⟩⟩
  · obtain ⟨p, hrest⟩ := ih (.sub k) _ i' hi' rfl
    exact ⟨p, i, hi, k, hdesc ▸ pointsTo_tableDescOf hk, .inr hrest⟩

/-- In separate trees, one descriptor at most leads to a table. -/
theorem RefersAt.unique
    (hap : ∀ i k j, i ≠ k → (s.kids ctx d ref n i).Has j → ¬ (s.kids ctx d ref n k).Has j)
    (hdist : ∀ i, (s.kids ctx d ref n i).Distinct)
    (hp : RefersAt ctx s j p d ref n) (hq : RefersAt ctx s j q d ref n) : p = q := by
  induction d generalizing ref n with
  | zero => exact hp.elim
  | succ d ih =>
    obtain ⟨i, hi, k, hpk, hpre⟩ := hp
    obtain ⟨i', hi', k', hqk, hqr⟩ := hq
    obtain ⟨hnode, hsub⟩ := hf.node htype hi hpk
    -- Both ways lead through the same entry, as the trees of the entries are apart.
    obtain rfl : i = i' := by
      by_contra hne
      exact hap i i' j hne (hf.has htype hi hpk hpre) (hf.has htype hi' hqk hqr)
    obtain rfl : k = k' := XlatCtx.tableAddr_inj hpk.1 hqk.1 (hpk.2.2.symm.trans hqk.2.2)
    have hkids := hdist i
    rw [hnode] at hkids
    obtain ⟨hown, hapart', hdistinct'⟩ := Node.distinct_table.mp hkids
    rcases hpre with ⟨rfl, rfl⟩ | hpre
    · rcases hqr with ⟨-, rfl⟩ | hqr
      · rfl
      · obtain ⟨m, -, hm⟩ := hqr.has htype hsub
        exact absurd hm (hown m)
    · rcases hqr with ⟨rfl, rfl⟩ | hqr
      · obtain ⟨m, -, hm⟩ := hpre.has htype hsub
        exact absurd hm (hown m)
      · exact ih hsub (fun i k j hne => hapart' i k hne j) hdistinct' hpre hqr

omit hf in
/-- **Tables that follow a plan** make a well-formed pool. -/
theorem TablesFollow.poolOk (h : TablesFollow ctx l s) : PoolOk ctx s := by
  have hf : EntriesFollow ctx l s ctx.baseDepth .base ctx.baseTableEntries := by
    refine ⟨0, fun i hi => ?_⟩
    have hi' := h.follows i hi
    rw [tree, kids_of_lt hi] at hi'
    exact hi'
  have hfree : ∀ j < ctx.tablesNum, s.tablesMappedRegions j = 0 →
      (∀ i < xlatTableEntries, s.tables j i = invalidDesc) ∧ ∀ p, ¬ RefersTo ctx s j p := by
    intro j hj h0
    refine ⟨h.zero j hj h0, fun p hp => ?_⟩
    obtain ⟨i, -, hi⟩ := hp.has htype hf
    exact absurd h0 (ne_of_gt (h.ok.pos i j hi))
  refine ⟨hfree, fun j hj hne => ?_, fun j hj => ?_⟩
  · obtain ⟨k, hk⟩ := h.linked j hj hne
    have hlt := lt_of_has hk
    rw [tree, kids_of_lt hlt] at hk
    obtain ⟨p, hp⟩ := exists_refersAt hlt hk
    exact ⟨p, hp, fun q hq => hq.unique htype hf h.ok.apart h.ok.distinct hp⟩
  · exact hfree j (mem_range.mp (mem_of_find?_eq_some hj)) (by simpa using find?_some hj)

end

/-! ### Before the context is initialised -/

/-- The tables are empty and not in use. -/
structure XlatState.Zeroed (ctx : XlatCtx) (s : XlatState) : Prop where
  base : ∀ i < ctx.baseTableEntries, s.baseTable i = invalidDesc
  tables : ∀ j < ctx.tablesNum, ∀ i < xlatTableEntries, s.tables j i = invalidDesc
  counts : ∀ j < ctx.tablesNum, s.tablesMappedRegions j = 0

theorem XlatState.blank_zeroed (ctx : XlatCtx) : (blank ctx).Zeroed ctx :=
  ⟨fun _ _ => rfl, fun _ _ _ _ => rfl, fun _ _ => rfl⟩

theorem XlatState.Zeroed.poolOk (h : s.Zeroed ctx) : PoolOk ctx s := by
  have hnone : ∀ j p, ¬ RefersTo ctx s j p := by
    intro j p hp
    unfold RefersTo at hp
    generalize hd : ctx.baseDepth = v at hp
    cases v with
    | zero =>
      exact hp.elim
    | succ =>
      obtain ⟨i, hi, k, hk, -⟩ := hp
      have hmask := hk.2.1
      rw [show s.read .base i = invalidDesc from h.base i hi] at hmask
      cases hmask
  refine ⟨fun j hj _ => ⟨h.tables j hj, hnone j⟩, fun j hj hne => absurd (h.counts j hj) hne,
    fun j hj => ⟨h.tables j (mem_range.mp (mem_of_find?_eq_some hj)), hnone j⟩⟩

/-- No call writes the tables before the context is initialised. -/
theorem XlatState.step_of_not_initialized (hok : MmapOk ctx s) {op : XlatOp}
    (hstep : s.step ctx op = some s') (hno : s'.initialized = false) :
    s.initialized = false ∧ s.SameTables s' := by
  have hrefl : s.SameTables s := ⟨rfl, rfl, rfl⟩
  cases op with
  | addRegion =>
    rcases mmapAddRegionCtx_eq_some hok hstep with rfl | ⟨hno', -, -, mmap, -, rfl⟩
    · exact ⟨hno, hrefl⟩
    · exact ⟨hno', ⟨rfl, rfl, rfl⟩⟩
  | addDynamicRegion =>
    obtain ⟨⟨t, ret⟩, ht, rfl⟩ := map_eq_some_iff.mp hstep
    rcases mmapAddDynamicRegionCtx_eq_some hok ht with
      ⟨-, rfl, -⟩ | ⟨-, rfl, -⟩ | ⟨-, -, mmap, hmmap, hmap⟩
    · exact ⟨hno, hrefl⟩
    · exact ⟨hno, hrefl⟩
    · rcases mapDynamicRegion_eq_some hok hmmap hmap with
        ⟨hno', rfl, -⟩ | ⟨hyes, s₁, endVa, hs₁, hrest⟩
      · exact ⟨hno', ⟨rfl, rfl, rfl⟩⟩
      · have hinit : s₁.initialized = true :=
          (sameRegions_xlatTablesMapRegion hs₁).initialized.trans hyes
        have hyes' : t.initialized = true := by
          rcases hrest with ⟨-, rfl, -⟩ | ⟨-, -, ⟨-, rfl⟩ | ⟨-, hunm⟩⟩
          · exact hinit
          · exact hinit
          · exact (sameRegions_xlatTablesUnmapRegion hunm).initialized.trans hinit
        cases hno.symm.trans hyes'
  | removeDynamicRegion =>
    obtain ⟨⟨t, ret⟩, ht, rfl⟩ := map_eq_some_iff.mp hstep
    rcases mmapRemoveDynamicRegionCtx_eq_some hok ht with
      rfl | ⟨front, mm, back, mmap, s₁, -, -, -, hs₁, rfl⟩
    · exact ⟨hno, hrefl⟩
    · split_ifs at hs₁ with hyes
      · have hyes' : s₁.initialized = true :=
          (sameRegions_xlatTablesUnmapRegion hs₁).initialized.trans hyes
        cases hno.symm.trans hyes'
      · cases hs₁
        exact ⟨hno, ⟨rfl, rfl, rfl⟩⟩
  | init =>
    unfold step initXlatTablesCtx at hstep
    split_ifs at hstep
    obtain ⟨s₁, -, hrest⟩ := bind_eq_some_iff.mp hstep
    split_ifs at hrest
    cases hrest
    exact absurd hno (Bool.false_ne_true.symm)
  | changeMemAttributes =>
    obtain ⟨⟨t, ret⟩, ht, rfl⟩ := map_eq_some_iff.mp hstep
    have hsame := sameRegions_xlatChangeMemAttributesCtx ht
    have hno' := hsame.initialized.symm.trans hno
    rcases xlatChangeMemAttributesCtx_eq_some ht with ⟨rfl, -⟩ | ⟨-, hyes, -⟩
    · exact ⟨hno, hrefl⟩
    · cases hno'.symm.trans hyes

/-- **The pool is well formed in every reachable state** of a run that strands no
tables. Before the context is initialised, this is so if its memory was zero at the
start. -/
theorem table_pool_ok {ops : List XlatOp} (hreg : s.Registered ctx)
    (hstrand : Along (step ctx) (fun s op => ¬ StrandsTables ctx s op) s ops)
    (hrun : run (step ctx) s ops = some s')
    (hstart : s'.initialized = true ∨ s.Zeroed ctx) : PoolOk ctx s' := by
  have hinv : XlatInv ctx (fun _ _ => True) s' := hreg.xlatInv.run hstrand hrun
  cases hinit : s'.initialized with
  | true =>
    obtain ⟨-, ls, hfol⟩ := hinv.tables hinit
    exact hfol.poolOk fun _ _ _ => regionPlan_type
  | false =>
    have hzero := hstart.resolve_left fun hyes => absurd (hinit.symm.trans hyes) (by decide)
    refine (@run_invariant _ _ _
      (fun s => MmapOk ctx s ∧ (s.initialized = false → s.Zeroed ctx))
      (fun s₀ op s₁ h hstep => ⟨h.1.step hstep, fun hno => ?_⟩) _ _ _
      ⟨hreg.mmapOk, fun _ => hzero⟩ hrun).2 hinit |>.poolOk
    obtain ⟨hno₀, hsame⟩ := step_of_not_initialized h.1 hstep hno
    obtain ⟨hbase, htab, hcnts⟩ := h.2 hno₀
    exact ⟨by rw [hsame.base]; exact hbase, by rw [hsame.tables]; exact htab,
      by rw [hsame.counts]; exact hcnts⟩

/-- After a region is added and a second one fails for want of tables. -/
theorem table_pool_ok_boundary :
    ∃ s', run (step (sampleCtx 0xFFFFFFFF 2)) (.blank (sampleCtx 0xFFFFFFFF 2))
        [.init, .addDynamicRegion (sampleRegion 0x10000 0x1000 0x1000),
          .addDynamicRegion (sampleRegion 0x20000 0x1FF000 0x2000)] = some s' ∧
      s'.tablesMappedRegions 1 = 1 ∧ PoolOk (sampleCtx 0xFFFFFFFF 2) s' := by
  refine exists_some_imp (by decide +kernel)
    fun s' hrun hend => ⟨hend, ?_⟩
  exact table_pool_ok (blank_registered _) (by decide +kernel) hrun (.inr (blank_zeroed _))

/-- With an address space of 2⁴⁰ bytes and four tables, two pages around the first
gigabyte run out of tables at the second one. The table for the first 512 GiB is freed
with an entry left in it. -/
theorem freed_table_not_empty :
    ∃ s', run (step (sampleCtx 0xFFFFFFFFFF 4)) (.blank (sampleCtx 0xFFFFFFFFFF 4))
        [.init, .addDynamicRegion (sampleRegion 0x20000 0x3FFFF000 0x2000)] = some s' ∧
      s'.initialized = true ∧ ¬ PoolOk (sampleCtx 0xFFFFFFFFFF 4) s' := by
  refine exists_some_imp (q := fun s' => s'.initialized = true ∧ s'.tablesMappedRegions 0 = 0 ∧
    s'.tables 0 1 ≠ invalidDesc) (by decide +kernel) fun s' _ ⟨hinit, h0, hne⟩ =>
      ⟨hinit, fun h => ?_⟩
  exact hne ((h.free 0 (by decide) h0).1 1 (by decide))

end TrustedFirmware.Xlat
