import TrustedFirmware.Xlat.ChangeAttrs

/-!
# Taking a dynamic region back

Removing a region that was just added restores the context (`add_then_remove_restores`).
An addition that runs out of tables restores it exactly when its walk did not stop at
the first entry of a table that it went through, nor before the start of the region
(`failed_add_restores_iff`): otherwise a table keeps a user.

Both compare the trees before and after, which determine the memory of the context
as long as the tables in use are in reach (`TablesFollow.sameContext`).
-/

namespace TrustedFirmware.Xlat

open Lib Lib.Radix List XlatState Option

/-! ### The memory of a context -/

/-- The two states agree on all memory of the context. -/
structure SameContext (ctx : XlatCtx) (s s' : XlatState) : Prop extends s.SameRegions s' where
  base : ∀ i < ctx.baseTableEntries, s'.baseTable i = s.baseTable i
  tables : ∀ j < ctx.tablesNum, ∀ i < xlatTableEntries, s'.tables j i = s.tables j i
  counts : ∀ j < ctx.tablesNum, s'.tablesMappedRegions j = s.tablesMappedRegions j

section

variable {ctx : XlatCtx} {l l' : Plan U64} {s s' : XlatState} {d j : Nat} {desc : U64}

theorem XlatState.eq_of_has (h : s'.node ctx d desc = s.node ctx d desc)
    (hj : (s.node ctx d desc).Has j) :
    s'.tablesMappedRegions j = s.tablesMappedRegions j ∧
      ∀ i < xlatTableEntries, s'.tables j i = s.tables j i := by
  -- The trees below a table are the same entry by entry.
  have hbelow {d k : Nat} (hk : k < ctx.tablesNum)
      (h : s'.node ctx (d + 1) (ctx.tableDescOf k) = s.node ctx (d + 1) (ctx.tableDescOf k)) :
      s'.tablesMappedRegions k = s.tablesMappedRegions k ∧ ∀ i < xlatTableEntries,
        s'.node ctx d (s'.tables k i) = s.node ctx d (s.tables k i) := by
    rw [node_tableDescOf hk, node_tableDescOf hk] at h
    injection h with _ _ hcnt hkids
    refine ⟨hcnt, fun i hi => ?_⟩
    have hkid := congrFun hkids i
    rw [kids_of_lt hi, kids_of_lt hi] at hkid
    exact hkid
  refine has_induction (P := fun d desc => s'.node ctx d desc = s.node ctx d desc → _)
    (fun d hj h => ?_) (fun d k i hk hi ih h => ?_) hj h
  · exact ⟨(hbelow hj h).1, fun i hi => node_inj ((hbelow hj h).2 i hi)⟩
  · have hkid := (hbelow hk h).2 i hi
    rw [node_inj hkid] at hkid
    exact ih hkid

/-- **The trees determine the memory** of a context whose tables follow a plan. -/
theorem TablesFollow.sameContext (h : TablesFollow ctx l s) (h' : TablesFollow ctx l' s')
    (hregs : s.SameRegions s')
    (htree : ∀ k < ctx.baseTableEntries, s'.tree ctx k = s.tree ctx k) :
    SameContext ctx s s' := by
  have hnode : ∀ k < ctx.baseTableEntries, s'.node ctx ctx.baseDepth (s'.read .base k) =
      s.node ctx ctx.baseDepth (s.read .base k) := by
    intro k hk
    have hk' := htree k hk
    rw [XlatState.tree, XlatState.tree, kids_of_lt hk, kids_of_lt hk] at hk'
    exact hk'
  have htab : ∀ j < ctx.tablesNum, s'.tablesMappedRegions j = s.tablesMappedRegions j ∧
      ∀ i < xlatTableEntries, s'.tables j i = s.tables j i := by
    intro j hj
    by_cases hhas : ∃ k < ctx.baseTableEntries, (s.tree ctx k).Has j
    · obtain ⟨k, hk, hkj⟩ := hhas
      have heq := hnode k hk
      rw [node_inj heq] at heq
      rw [XlatState.tree, kids_of_lt hk] at hkj
      exact eq_of_has heq hkj
    · -- A table that is in no tree is not in use, neither before nor after.
      have hfree : s.tablesMappedRegions j = 0 := by
        by_contra hne
        obtain ⟨k, hk⟩ := h.linked j hj hne
        exact hhas ⟨k, lt_of_has hk, hk⟩
      have hfree' : s'.tablesMappedRegions j = 0 := by
        by_contra hne
        obtain ⟨k, hk⟩ := h'.linked j hj hne
        have hkLt := lt_of_has hk
        rw [htree k hkLt] at hk
        exact hhas ⟨k, hkLt, hk⟩
      exact ⟨hfree'.trans hfree.symm,
        fun i hi => (h'.zero j hj hfree' i hi).trans (h.zero j hj hfree i hi).symm⟩
  exact ⟨hregs, fun k hk => node_inj (hnode k hk), fun j hj => (htab j hj).2,
    fun j hj => (htab j hj).1⟩

end

/-! ### Unmapping what was mapped -/

variable {ctx : XlatCtx} {l l' : Plan U64} {mm r : MmapRegion} {s s₁ s₂ : XlatState}
  {F : Nat → Prop} {f : Nat × Nat} {k endVa : Nat}

/-- Where the region has no descriptors yet. -/
theorem TablesFollow.clear (h : TablesFollow ctx l s)
    (hclr : ∀ d x a, l.leaf d x a → ¬ mm.range.Meets x (geo.size d)) {k : Nat}
    (hk : k < ctx.baseTableEntries) :
    (s.tree ctx k).Clear geo (mm.paint ctx).toRange (ctx.treeAt k) :=
  (h.follows k hk).clear hclr

theorem UnmapDone.tree (h : UnmapDone ctx r l' s s₁ .base 0 ctx.baseDepth ctx.baseTableEntries 0
    ctx.baseTableEntries) (hk : k < ctx.baseTableEntries) :
    s₁.tree ctx k = if r.range.Meets (ctx.treeAt k) (geo.size ctx.baseDepth) then
      unmap geo r.range (ctx.treeAt k) (s.tree ctx k) else s.tree ctx k := by
  rw [XlatState.tree, h.kids k]
  exact if_congr (by simp [hk]) rfl rfl

section

variable (h : TablesFollow ctx l s) (hclr : ∀ d x a, l.leaf d x a → ¬ mm.range.Meets x (geo.size d))
include h hclr

/-- **Unmapping a region that was mapped** gives the trees back. -/
theorem MapDone.restore (hmap : RegionDone ctx mm s s₁ endVa) (hk : k < ctx.baseTableEntries) :
    (if mm.range.Meets (ctx.treeAt k) (geo.size ctx.baseDepth) then
      unmap geo mm.range (ctx.treeAt k) (s₁.tree ctx k) else s₁.tree ctx k) = s.tree ctx k := by
  split_ifs with hm
  · exact (hmap.maps k (Nat.zero_le k) hk hm).undo hm (h.clear hclr hk) fun _ _ _ _ _ => Iff.rfl
  · exact hmap.same k fun h => hm h.2.2

/-- **Unmapping the mapped part of a stopped walk** gives the trees back, if the walk
did not stop at the first entry of a table. -/
theorem MapStopped.restore (hstop : RegionStopped ctx mm F f s s₁ k endVa)
    (hlo : mm.range.lo < f.2) (hnot : ¬ geo.size (f.1 + 1) ∣ f.2) {k' : Nat}
    (hk' : k' < ctx.baseTableEntries) :
    (if (mm.range.upTo f.2).Meets (ctx.treeAt k') (geo.size ctx.baseDepth) then
      unmap geo (mm.range.upTo f.2) (ctx.treeAt k') (s₁.tree ctx k') else s₁.tree ctx k') =
        s.tree ctx k' := by
  rcases lt_trichotomy k' k with hkk | rfl | hkk
  · -- An entry before the stop, all of which was mapped.
    have hagr : mm.range.AgreeOn (mm.range.upTo f.2) (ctx.treeAt k')
        (ctx.treeAt k' + geo.size ctx.baseDepth) :=
      Range.agreeOn_upTo (le_of_lt (hstop.fails.meets_stop hstop.meets).1) (hstop.fails.kid_le hkk)
    have hiff := hagr _ _ le_rfl le_rfl (geo.size_pos ctx.baseDepth)
    by_cases hm : mm.range.Meets (ctx.treeAt k') (geo.size ctx.baseDepth)
    · rw [if_pos (hiff.mpr hm)]
      exact (hstop.maps k' (Nat.zero_le k') hkk hm).undo hm (h.clear hclr hk') hagr
    · rw [if_neg (mt hiff.mp hm)]
      exact hstop.same k' fun h => hm h.2.2
  · exact hstop.fails.undo (ctx.dvd_treeAt k') hstop.meets (h.clear hclr hk') hlo hnot
  · -- An entry after the stop, which neither walk visits.
    have haf : f.2 < ctx.treeAt k' := hstop.fails.lt_kid hkk
    rw [if_neg fun h => absurd h.1 (not_lt.mpr haf.le)]
    exact hstop.same k' fun h => absurd h.2.1 (not_le.mpr hkk)

end

/-- A walk that stopped in the base table before the region begins did nothing. -/
theorem MapStopped.nothing (hstop : RegionStopped ctx mm F f s s₁ k endVa)
    (hdep : f.1 = ctx.baseDepth) (hlo : f.2 ≤ mm.range.lo) (k' : Nat) :
    s₁.tree ctx k' = s.tree ctx k' := by
  obtain ⟨haddr, hsame⟩ := hstop.fails.eq_of_depth hdep
  rcases lt_trichotomy k' k with hkk | rfl | hkk
  · refine hstop.same k' fun h => ?_
    have hmono := geo.kidAt_mono 0 ctx.baseDepth hkk
    rw [← geo.kidAt_add_size, ← haddr] at hmono
    exact absurd h.2.2.2 (not_lt.mpr (hmono.trans hlo))
  · exact hsame
  · exact hstop.same k' fun h => absurd h.2.1 (not_le.mpr hkk)

/-! ### An addition that fails -/

variable {mmap : List MmapRegion}

variable {allowed : MmapRegion → U32 → Prop} {t s₀ : XlatState}

/-- Taking a stopped walk back returns, whether or not it restores the tables. -/
theorem TablesFollow.undoStopped (hs : VaSpace ctx) (hmm : RegionOk ctx mm)
    (hstop : StopAt ctx mm f)
    (hclr : ∀ d x a, l.leaf d x a → ¬ mm.range.Meets x (geo.size d))
    (htype : ∀ d x a, l.leaf d x a → a &&& descMask = leafType d) (hlo : mm.range.lo < f.2)
    (hfol : TablesFollow ctx (l.stall geo (mm.paint ctx) f) s) :
    ∃ t, Xlat.unmapRegion ctx s (undoRegion mm f.2) = some t ∧
      UnmapDone ctx (undoRegion mm f.2) (l.undone geo (mm.paint ctx) f) s t .base 0 ctx.baseDepth
        ctx.baseTableEntries 0 ctx.baseTableEntries := by
  have hwalk := (hmm.mappable hs).toWalkable
  obtain ⟨hundo, hrg⟩ := undoRegion_walkable hwalk hstop hlo
  have hupTo : (undoRegion mm f.2).range = mm.range.upTo f.2 :=
    hrg.trans (hstop.truncate_range hlo)
  have hshr := Plan.shrinks_stall (p := mm.paint ctx) hlo (hstop.meets.1.le) hclr
  have hrdy : UnmapReady (undoRegion mm f.2) (l.stall geo (mm.paint ctx) f)
      (l.undone geo (mm.paint ctx) f) := by
    refine ⟨hupTo ▸ hshr, fun d x a hleaf => ?_, fun d x a hleaf hm => ?_⟩
    · rcases hleaf with hleaf | ⟨-, -, -, hval⟩
      · exact htype d x a hleaf
      · exact xlatDesc_leafType hval
    · rw [hupTo] at hm ⊢
      rcases hleaf with hleaf | ⟨-, hblk, hle, -⟩
      · exact absurd ⟨hm.1.trans_le (hstop.meets.1.le), hm.2⟩ (hclr d x a hleaf)
      · exact ⟨hblk.1.1, hle⟩
  have hm : (undoRegion mm f.2).range.Meets 0 (ctx.baseTableEntries * geo.size ctx.baseDepth) := by
    have hlt := hstop.lt
    simp only [Geometry.kidAt, zero_add] at hlt
    rw [hupTo]
    exact ⟨lt_of_le_of_lt (Nat.zero_le _) hlo, by rw [zero_add]; exact hlo.trans hlt⟩
  exact unmapRegion_spec hundo hrdy hs.entries_pos hm hfol.ok hfol.follows

/-- From `s` to `t` the tables ran out, at the entry `f` under entry `k` of the base
table, and what was mapped is taken back. In between, the region is in the array. -/
structure RanOut (ctx : XlatCtx) (l : Plan U64) (mm : MmapRegion) (F : Nat → Prop) (f : Nat × Nat)
    (k : Nat) (s s₀ s₁ s₂ t : XlatState) : Prop where
  start : s.SameTables s₀
  writes : MapWrites ctx F s₀ s₁ .base ctx.baseDepth ctx.baseTableEntries 0 ctx.baseTableEntries
  stopped : MapStopped ctx mm F f s₀ s₁ .base 0 ctx.baseDepth ctx.baseTableEntries 0 k f.2
  back : s₁.SameTables s₂
  before : f.2 ≤ mm.range.lo → t = s₂
  after : mm.range.lo < f.2 → UnmapDone ctx (undoRegion mm f.2) (l.undone geo (mm.paint ctx) f) s₂ t
    .base 0 ctx.baseDepth ctx.baseTableEntries 0 ctx.baseTableEntries

section

variable (h : XlatInv ctx allowed s) (hall : ∀ r, allowed r r.attr) (hinit : s.initialized = true)
  (hdyn : mm.isDynamic = true) (hsize : mm.size ≠ 0) (hchk : mmapAddRegionCheck ctx s mm = 0)
  (hmmap : MmapArray ctx mmap (s.inserted mm))
include h hall hinit hdyn hsize hchk hmmap

/-- An addition that succeeds has mapped all of the region. -/
theorem XlatInv.added (hmap : Xlat.mapDynamicRegion ctx { s with mmap := mmap } mm
      (insertPosition s.mmap mm) = some (t, 0)) :
    ∃ ls s₁, t = s₁.raiseMax mm ∧ s₁.mmap = mmap ∧ s₁.initialized = true ∧
      TablesFollow ctx (regionPlan ctx.regime allowed s.live ls) { s with mmap := mmap } ∧
      TablesFollow ctx (regionPlan ctx.regime allowed (mm :: s.live) ls) t ∧
      ∃ endVa, RegionDone ctx mm { s with mmap := mmap } s₁ endVa := by
  obtain ⟨-, ls, F, s₁, hfol, -, hregs, ⟨endVa, hdone, rfl, -, hfollow₁⟩ |
    ⟨f, k, -, -, hret, -⟩⟩ := h.dynamicWalk hall hdyn hsize hchk hmmap hmap hinit
  · exact ⟨ls, s₁, rfl, hregs.mmap, hregs.initialized.trans hinit,
      hfol.of_same ⟨rfl, rfl, rfl⟩, hfollow₁, endVa, hdone⟩
  · cases hret

/-- What an addition that fails has done once the region was in the array. -/
theorem XlatInv.ranOut {ret : Int} (hret : ret ≠ 0)
    (hmap : Xlat.mapDynamicRegion ctx { s with mmap := mmap } mm (insertPosition s.mmap mm) =
      some (t, ret)) :
    s.SameRegions t ∧ ∃ ls F f k s₀ s₁ s₂, stopPoint ctx s mm = some f ∧
      TablesFollow ctx (regionPlan ctx.regime allowed s.live ls) s ∧
      RanOut ctx (regionPlan ctx.regime allowed s.live ls) mm F f k s s₀ s₁ s₂ t := by
  obtain ⟨hmm, hap⟩ := h.mmap.apart_dynamic hsize hdyn hchk
  obtain ⟨hs, ls, F, s₁, hfol, hw, hregs, ⟨-, -, -, h0, -⟩ |
    ⟨f, k, hstop, hpt, -, hstl, hrest⟩⟩ := h.dynamicWalk hall hdyn hsize hchk hmmap hmap hinit
  · exact absurd h0 hret
  have hregions' : s.SameRegions { s₁ with mmap := s.mmap } :=
    ⟨rfl, hregs.maxPa, hregs.maxVa, hregs.initialized⟩
  have hstt : s.SameTables { s with mmap := mmap } := ⟨rfl, rfl, rfl⟩
  have hback : s₁.SameTables { s₁ with mmap := s.mmap } := ⟨rfl, rfl, rfl⟩
  rcases hrest with ⟨hle, rfl⟩ | ⟨hlt, hunm⟩
  · exact ⟨hregions', ls, F, f, k, _, s₁, _, hpt, hfol, hstt, hw, hstop, hback,
      fun _ => rfl, fun hlt => absurd hlt (not_lt.mpr hle)⟩
  · obtain ⟨t', ht', hdone⟩ := hstl.undoStopped hs hmm hstop.stopAt
      (fun _ _ _ => regionPlan_clear hap) (fun _ _ _ => regionPlan_type) hlt
    cases hunm.symm.trans ht'
    exact ⟨hregions'.trans (sameRegions_xlatTablesUnmapRegion hunm), ls, F, f, k, _, s₁, _, hpt,
      hfol, hstt, hw, hstop, hback, fun hle => absurd hlt (not_lt.mpr hle), fun _ => hdone⟩

end

/-- Where no table is left with a user, the trees are as they were. -/
theorem RanOut.restore (hs : VaSpace ctx) (hmm : RegionOk ctx mm)
    (h : RanOut ctx l mm F f k s s₀ s₁ s₂ t) (hfol : TablesFollow ctx l s)
    (hclr : ∀ d x a, l.leaf d x a → ¬ mm.range.Meets x (geo.size d))
    (hnot : ¬ Leaks ctx mm f) {k' : Nat} (hk' : k' < ctx.baseTableEntries) :
    t.tree ctx k' = s.tree ctx k' := by
  have hstop := h.stopped.stopAt
  have hstt : s₀.tree ctx k' = s.tree ctx k' := h.start.kids_eq _ _ _ _
  rw [← hstt]
  by_cases hlo : mm.range.lo < f.2
  · have hdvd : ¬ geo.size (f.1 + 1) ∣ f.2 := by
      rcases lt_or_eq_of_le hstop.depth_le with hdep | hdep
      · exact fun hdvd => hnot ⟨hdep, .inr hdvd⟩
      · exact hstop.not_dvd_base hs hdep (lt_of_le_of_lt (Nat.zero_le _) hlo)
    have hwalk := (hmm.mappable hs).toWalkable
    have hrg := (undoRegion_walkable hwalk hstop hlo).2.trans
      (hstop.truncate_range hlo)
    have hback : s₂.tree ctx k' = s₁.tree ctx k' := h.back.kids_eq _ _ _ _
    have hund := (h.after hlo).tree hk'
    rw [hrg, hback] at hund
    exact hund.trans (h.stopped.restore (hfol.of_same h.start) hclr hlo hdvd hk')
  · rw [not_lt] at hlo
    have hdep : f.1 = ctx.baseDepth := by
      refine le_antisymm hstop.depth_le (not_lt.mp fun hlt => ?_)
      exact hnot ⟨hlt, .inl hlo⟩
    rw [h.before hlo, XlatState.tree, h.back.kids_eq]
    exact h.stopped.nothing hdep hlo k'

/-- A walk that leaks a table leaves one with a region more. -/
theorem RanOut.leak (hwalk : mm.Walkable)
    (h : RanOut ctx l mm F f k s s₀ s₁ s₂ t) (hleak : Leaks ctx mm f) :
    ∃ j < ctx.tablesNum, t.tablesMappedRegions j = s.tablesMappedRegions j + 1 := by
  have hstop := h.stopped
  obtain ⟨j, hvis, hmis⟩ := hstop.fails.missed (ctx.dvd_treeAt k) hleak.1
    (h.writes.ok.distinct k) hleak.2
  have hhas := hvis.has
  have hlt : j < ctx.tablesNum := by
    have hk := lt_of_has hhas
    rw [kids_of_lt hk] at hhas
    exact has_lt hhas
  have hcnt : s₂.tablesMappedRegions j = s.tablesMappedRegions j + 1 := by
    rw [h.back.counts, h.writes.touch.count_in j (hstop.path j hvis), h.start.counts]
  refine ⟨j, hlt, ?_⟩
  by_cases hlo : mm.range.lo < f.2
  · -- Neither this entry nor another one leads the unmapping to the table.
    rw [(h.after hlo).touch.count_out j, hcnt]
    intro hv
    obtain ⟨k', -, -, hk'⟩ := hv
    rw [h.back.kids_eq] at hk'
    obtain rfl | hkk := eq_or_ne k' k
    · have hrg := (undoRegion_walkable hwalk hstop.stopAt hlo).2.trans
        (hstop.stopAt.truncate_range hlo)
      rw [hrg] at hk'
      exact hmis hlo hk'
    · exact h.writes.ok.apart k' k j hkk hk'.has hhas
  · rw [h.before (not_lt.mp hlo), hcnt]

/-- An addition that would leave a table with a user behind. -/
def LeaksTables (ctx : XlatCtx) (s : XlatState) (mm : MmapRegion) : Prop :=
  mm.size ≠ 0 ∧ mmapAddRegionCheck ctx s mm.asDynamic = 0 ∧
    (stopPoint ctx s mm.asDynamic).any (fun f => Leaks ctx mm.asDynamic f) = true
  deriving Decidable

/-- **An addition that fails** in any state where the tables follow the regions. -/
theorem XlatInv.failedAdd (h : XlatInv ctx allowed s) (hall : ∀ r, allowed r r.attr)
    (hinit : s.initialized = true) {ret : Int} (hret : ret ≠ 0)
    (hadd : mmapAddDynamicRegionCtx ctx s mm = some (t, ret)) :
    SameContext ctx s t ↔ ¬ LeaksTables ctx s mm := by
  rcases mmapAddDynamicRegionCtx_eq_some h.mmap hadd with
    ⟨-, -, h0⟩ | ⟨-, rfl, rfl, hne⟩ | ⟨hsize, hchk, mmap, hmmap, hmap⟩
  · exact absurd h0 hret
  · exact iff_of_true ⟨⟨rfl, rfl, rfl, rfl⟩, fun _ _ => rfl, fun _ _ _ _ => rfl, fun _ _ => rfl⟩
      fun hl => hne hl.2.1
  have hdyn := isDynamic_asDynamic mm
  have hsize' : mm.asDynamic.size ≠ 0 := hsize
  obtain ⟨hregs, ls, F, f, k, s₀, s₁, s₂, hpt, hfol, hran⟩ :=
    h.ranOut hall hinit hdyn hsize' hchk hmmap hret hmap
  obtain ⟨hs, -⟩ := h.tables hinit
  obtain ⟨hmm, hap⟩ := h.mmap.apart_dynamic hsize' hdyn hchk
  have hiff : LeaksTables ctx s mm ↔ Leaks ctx mm.asDynamic f := by
    unfold LeaksTables
    rw [hpt, any_some, decide_eq_true_eq, and_iff_right hsize, and_iff_right hchk]
  rw [hiff]
  constructor
  · intro hsame hleak
    obtain ⟨j, hj, hcnt⟩ := hran.leak (hmm.mappable hs).toWalkable hleak
    have hback := hsame.counts j hj
    omega
  · intro hnot
    have hstr : s.initialized = true → ∀ f', stopPoint ctx s mm.asDynamic = some f' →
        ¬ Strands ctx mm.asDynamic f' := by
      intro _ f' hf' hst
      cases hpt.symm.trans hf'
      exact hnot ⟨hst.1, .inr hst.2.2.1⟩
    obtain ⟨-, ls', hfollow'⟩ := h.mapDynamicRegion hall hdyn hsize' hchk hmmap hmap hstr
      (hregs.initialized.trans hinit)
    exact hfol.sameContext hfollow' hregs fun k' hk' =>
      hran.restore hs hmm hfol (fun _ _ _ => regionPlan_clear hap) hnot hk'

/-- **A failed addition in any reachable state** leaves the context as it was exactly
when its walk leaves no table with a user behind. -/
theorem failed_add_restores_iff {ops : List XlatOp} {s' : XlatState} {ret : Int}
    (hreg : s.Registered ctx)
    (hstrand : Along (XlatState.step ctx) (fun s op => ¬ StrandsTables ctx s op) s ops)
    (hrun : run (XlatState.step ctx) s ops = some s') (hinit : s'.initialized = true)
    (hadd : mmapAddDynamicRegionCtx ctx s' mm = some (t, ret)) (hret : ret ≠ 0) :
    SameContext ctx s' t ↔ ¬ LeaksTables ctx s' mm :=
  (hreg.xlatInv.run hstrand hrun).failedAdd (fun _ => trivial) hinit hret hadd

/-- With two tables, the two pages around the 2 MiB boundary run out of them in the
second entry of the table for the first gigabyte, and the first page is taken back. -/
theorem failed_add_restores_boundary :
    ∃ s' t, run (XlatState.step (sampleCtx 0xFFFFFFFF 2)) (.blank (sampleCtx 0xFFFFFFFF 2))
        [.init] = some s' ∧
      mmapAddDynamicRegionCtx (sampleCtx 0xFFFFFFFF 2) s' (sampleRegion 0x10000 0x1FF000 0x2000) =
        some (t, -eNoMem) ∧
      SameContext (sampleCtx 0xFFFFFFFF 2) s' t := by
  simp only [exists_and_left]
  refine exists_some_imp (q := fun s' => s'.initialized = true ∧
    ¬ LeaksTables (sampleCtx 0xFFFFFFFF 2) s' (sampleRegion 0x10000 0x1FF000 0x2000) ∧
    ∃ t, mmapAddDynamicRegionCtx (sampleCtx 0xFFFFFFFF 2) s'
      (sampleRegion 0x10000 0x1FF000 0x2000) = some (t, -eNoMem) ∧ True) (by decide +kernel)
    fun s' hrun ⟨hinit, hnot, t, ht, _⟩ => ⟨t, ht, ?_⟩
  exact (failed_add_restores_iff (blank_registered _) (by decide +kernel) hrun hinit ht
    (by decide)).mpr hnot

/-- With one table, a page in the first 2 MiB gets the table for the first gigabyte
and then no other. Nothing is taken back, and the table has a user from then on. -/
theorem failed_add_leaks :
    ∃ s' t, run (XlatState.step (sampleCtx 0xFFFFFFFF 1)) (.blank (sampleCtx 0xFFFFFFFF 1))
        [.init] = some s' ∧ s'.initialized = true ∧
      mmapAddDynamicRegionCtx (sampleCtx 0xFFFFFFFF 1) s' (sampleRegion 0x10000 0x1000 0x1000) =
        some (t, -eNoMem) ∧
      ¬ SameContext (sampleCtx 0xFFFFFFFF 1) s' t := by
  simp only [exists_and_left]
  refine exists_some_imp (q := fun s' => s'.initialized = true ∧
    ∃ t, mmapAddDynamicRegionCtx (sampleCtx 0xFFFFFFFF 1) s'
        (sampleRegion 0x10000 0x1000 0x1000) = some (t, -eNoMem) ∧
      t.tablesMappedRegions 0 ≠ s'.tablesMappedRegions 0) (by decide +kernel)
    fun s' _ ⟨hinit, t, ht, hcnt⟩ => ⟨hinit, t, ht, fun h => hcnt (h.counts 0 (by decide))⟩

/-! ### Removing a region that was just added -/

/-- The call does not fail. -/
def XlatState.Succeeds (ctx : XlatCtx) (s : XlatState) : XlatOp → Prop
  | .addDynamicRegion mm => (mmapAddDynamicRegionCtx ctx s mm).all (fun r => r.2 = 0) = true
  | .removeDynamicRegion baseVa size =>
    (mmapRemoveDynamicRegionCtx ctx s baseVa size).all (fun r => r.2 = 0) = true
  | .changeMemAttributes baseVa size attr =>
    (xlatChangeMemAttributesCtx ctx s baseVa size attr).all (fun r => r.2 = 0) = true
  | .addRegion _ | .init => True

instance (ctx : XlatCtx) (s : XlatState) : (op : XlatOp) → Decidable (s.Succeeds ctx op)
  | .addDynamicRegion _ | .removeDynamicRegion _ _ | .changeMemAttributes _ _ _ =>
    inferInstanceAs (Decidable (_ = true))
  | .addRegion _ | .init => inferInstanceAs (Decidable True)

theorem IsMaxOver.unique {g : MmapRegion → U64} {rs : List MmapRegion} {m m' : U64}
    (h : IsMaxOver g rs m) (h' : IsMaxOver g rs m') : m = m' := by
  rcases h.2 with ⟨rfl, rfl⟩ | ⟨r, hr, rfl⟩
  · rcases h'.2 with ⟨-, rfl⟩ | ⟨r', hr', -⟩
    · rfl
    · exact absurd hr' not_mem_nil
  · rcases h'.2 with ⟨rfl, -⟩ | ⟨r', hr', rfl⟩
    · exact absurd hr not_mem_nil
    · exact BitVec.le_antisymm (h'.1 r hr) (h.1 r' hr')

section

variable (h : XlatInv ctx allowed s) (hall : ∀ r, allowed r r.attr)
include h hall

/-- A call that does not fail strands no tables. -/
theorem XlatInv.not_strandsTables
    {op : XlatOp} (hok : s.Succeeds ctx op) (hstep : s.step ctx op = some t) :
    ¬ StrandsTables ctx s op := by
  cases op with
  | addDynamicRegion mm =>
    intro hstr
    obtain ⟨hinit, hsize, hchk, hany⟩ := hstr
    obtain ⟨⟨t', ret⟩, ht, rfl⟩ := map_eq_some_iff.mp hstep
    have hret : ret = 0 := by
      simpa only [XlatState.Succeeds, ht, all_some, decide_eq_true_eq] using hok
    subst hret
    rcases mmapAddDynamicRegionCtx_eq_some h.mmap ht with
      ⟨h0, -, -⟩ | ⟨-, -, -, hne⟩ | ⟨-, -, mmap, hmmap, hmap⟩
    · exact hsize h0
    · exact hne rfl
    · obtain ⟨-, s₁, -, -, -, -, -, endVa, hdone⟩ :=
        h.added hall hinit (isDynamic_asDynamic mm) hsize hchk hmmap hmap
      have hsame : s.SameTables { s with mmap := mmap } := ⟨rfl, rfl, rfl⟩
      have hnone := hdone.stopPoint
      rw [stopPoint_of_same hsame] at hnone
      rw [hnone] at hany
      exact absurd hany Bool.false_ne_true
  | addRegion | removeDynamicRegion | init | changeMemAttributes => exact id

/-- **Removing a region that was just added** in any state where the tables follow
the regions. -/
theorem XlatInv.addRemove (hinit : s.initialized = true) (hsize : mm.size ≠ 0)
    (hadd : mmapAddDynamicRegionCtx ctx s mm = some (t, 0)) :
    ∃ u, mmapRemoveDynamicRegionCtx ctx t mm.baseVa mm.size = some (u, 0) ∧
      SameContext ctx s u := by
  have hokT : MmapOk ctx t := h.mmap.step (show s.step ctx (.addDynamicRegion mm) = some t by
    rw [XlatState.step, hadd]; rfl)
  rcases mmapAddDynamicRegionCtx_eq_some h.mmap hadd with
    ⟨h0, -, -⟩ | ⟨-, -, -, hne⟩ | ⟨-, hchk, mmap, hmmap, hmap⟩
  · exact absurd h0 hsize
  · exact absurd rfl hne
  have hdyn := isDynamic_asDynamic mm
  have hsize' : mm.asDynamic.size ≠ 0 := hsize
  obtain ⟨ls, s₁, rfl, hmmap₁, hinit₁, hfollow₀, hfollow₁, endVa, hdone⟩ :=
    h.added hall hinit hdyn hsize' hchk hmmap hmap
  obtain ⟨hs, -⟩ := h.tables hinit
  obtain ⟨hmm, hap⟩ := h.mmap.apart_dynamic hsize' hdyn hchk
  have hlive : (s₁.raiseMax mm.asDynamic).live = s.inserted mm.asDynamic := by
    rw [← hmmap₁] at hmmap
    exact hmmap.live_eq
  -- No region before this one has its base, as those are apart from it.
  have hfrt : ∀ r ∈ s.live.take (insertPosition s.mmap mm.asDynamic), ¬ r.Is mm.baseVa mm.size := by
    intro r hr his
    have haway := hap r (mem_of_mem_take hr)
    have hpos := hmm.size_pos
    have hbase : r.baseVa = mm.asDynamic.baseVa := his.1
    have hlen : r.size = mm.asDynamic.size := his.2
    simp only [Range.Apart, MmapRegion.range, hbase, hlen] at haway
    omega
  obtain ⟨mmap', hmmap', hrem⟩ :=
    mmapRemoveDynamicRegionCtx_found hokT hlive hfrt ⟨rfl, rfl⟩
  obtain ⟨s₂, hunm, hfollow₂, hund⟩ := hfollow₁.unmapRegion hs (hmm.mappable hs).toWalkable
    (hmm.hi_le hs) (regionPlan_unmapReady hap) regionPlan_ok
  have hinitT : (s₁.raiseMax mm.asDynamic).initialized = true := hinit₁
  rw [if_pos hdyn, if_pos hinitT, hunm] at hrem
  have hregs := sameRegions_xlatTablesUnmapRegion hunm
  have hok₂ : MmapOk ctx s₂ := hokT.congr hregs.mmap hregs.maxVa hregs.maxPa
  have hokU : MmapOk ctx (s₂.dropRegion mm.asDynamic mmap') := by
    refine hok₂.remove ?_ hmmap'
    exact (congrArg liveRegions hregs.mmap).trans hlive
  rw [take_append_drop] at hmmap'
  have hliveU : (s₂.dropRegion mm.asDynamic mmap').live = s.live := hmmap'.live_eq
  refine ⟨_, hrem, ?_⟩
  have hfollowU : TablesFollow ctx (regionPlan ctx.regime allowed s.live ls)
      (s₂.dropRegion mm.asDynamic mmap') := hfollow₂.of_same ⟨rfl, rfl, rfl⟩
  have hfol : TablesFollow ctx (regionPlan ctx.regime allowed s.live ls) s :=
    hfollow₀.of_same ⟨rfl, rfl, rfl⟩
  refine hfol.sameContext hfollowU ⟨h.mmap.array.unique hmmap', ?_, ?_, ?_⟩ fun k hk => ?_
  · have hmax := hokU.maxPa
    rw [hliveU] at hmax
    exact hmax.unique h.mmap.maxPa
  · have hmax := hokU.maxVa
    rw [hliveU] at hmax
    exact hmax.unique h.mmap.maxVa
  · exact hregs.initialized.trans (hinit₁.trans hinit.symm)
  · have hsameT : s₁.SameTables (s₁.raiseMax mm.asDynamic) := ⟨rfl, rfl, rfl⟩
    have hsameU : s₂.SameTables (s₂.dropRegion mm.asDynamic mmap') := ⟨rfl, rfl, rfl⟩
    have hsame₀ : s.SameTables { s with mmap := mmap } := ⟨rfl, rfl, rfl⟩
    have htreeT : (s₁.raiseMax mm.asDynamic).tree ctx k = s₁.tree ctx k :=
      hsameT.kids_eq _ _ _ _
    have hres := hdone.restore hfollow₀ (fun _ _ _ => regionPlan_clear hap) hk
    have hundo := hund.tree hk
    rw [htreeT] at hundo
    exact (hsameU.kids_eq _ _ _ _).trans (hundo.trans (hres.trans (hsame₀.kids_eq _ _ _ _)))

end

/-- **Adding a region and removing it**, in any state that calls have reached without
failing, leaves the context as it was. -/
theorem add_then_remove_restores {ops : List XlatOp} {s' : XlatState} (hreg : s.Registered ctx)
    (hok : Along (XlatState.step ctx) (fun s op => s.Succeeds ctx op) s ops)
    (hrun : run (XlatState.step ctx) s ops = some s') (hinit : s'.initialized = true)
    (hsize : mm.size ≠ 0) (hadd : mmapAddDynamicRegionCtx ctx s' mm = some (t, 0)) :
    ∃ u, mmapRemoveDynamicRegionCtx ctx t mm.baseVa mm.size = some (u, 0) ∧
      SameContext ctx s' u := by
  have hinv : XlatInv ctx (fun _ _ => True) s' := by
    refine run_invariant_along (fun s₀ op s₁ h hsuc hstep => ?_) hreg.xlatInv hok hrun
    exact h.step (h.not_strandsTables (fun _ => trivial) hsuc hstep) hstep
  exact hinv.addRemove (fun _ => trivial) hinit hsize hadd

/-- A region that shares tables with one that is there. -/
theorem add_then_remove_restores_shared :
    ∃ s' t u, run (XlatState.step (sampleCtx 0xFFFFFFFF 4)) (.blank (sampleCtx 0xFFFFFFFF 4))
        onePage = some s' ∧
      mmapAddDynamicRegionCtx (sampleCtx 0xFFFFFFFF 4) s' (sampleRegion 0x20000 0x1FF000 0x2000) =
        some (t, 0) ∧
      mmapRemoveDynamicRegionCtx (sampleCtx 0xFFFFFFFF 4) t 0x1FF000 0x2000 = some (u, 0) ∧
      SameContext (sampleCtx 0xFFFFFFFF 4) s' u := by
  simp only [exists_and_left]
  refine exists_some_imp (q := fun s' => s'.initialized = true ∧
    ∃ t, mmapAddDynamicRegionCtx (sampleCtx 0xFFFFFFFF 4) s'
      (sampleRegion 0x20000 0x1FF000 0x2000) = some (t, 0) ∧ True) (by decide +kernel)
    fun s' hrun ⟨hinit, t, ht, _⟩ => ⟨t, ht, ?_⟩
  exact add_then_remove_restores (blank_registered _) (by decide +kernel) hrun hinit (by decide) ht

/-- An empty region is added without an error, and cannot be removed. -/
theorem empty_region_not_removed :
    ∃ s' t, run (XlatState.step (sampleCtx 0xFFFFFFFF 4)) (.blank (sampleCtx 0xFFFFFFFF 4))
        onePage = some s' ∧ s'.initialized = true ∧
      mmapAddDynamicRegionCtx (sampleCtx 0xFFFFFFFF 4) s' (sampleRegion 0x20000 0x3000 0) =
        some (t, 0) ∧
      ∃ u, mmapRemoveDynamicRegionCtx (sampleCtx 0xFFFFFFFF 4) t 0x3000 0 = some (u, -eInval) := by
  simp only [exists_and_left]
  refine exists_some_imp (q := fun s' => s'.initialized = true ∧
    ∃ t, mmapAddDynamicRegionCtx (sampleCtx 0xFFFFFFFF 4) s' (sampleRegion 0x20000 0x3000 0) =
        some (t, 0) ∧
      ∃ u, mmapRemoveDynamicRegionCtx (sampleCtx 0xFFFFFFFF 4) t 0x3000 0 = some (u, -eInval) ∧
        True) (by decide +kernel) fun s' _ ⟨hinit, t, ht, u, hu, _⟩ => ⟨hinit, t, ht, u, hu⟩

end TrustedFirmware.Xlat
