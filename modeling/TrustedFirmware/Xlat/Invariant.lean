import TrustedFirmware.Xlat.Plan

/-!
# The tables follow the regions

Once a context is initialised its tables follow the plan of its regions, and every call
that does not strand tables keeps it so.

The call to watch is an addition that runs out of tables. What it has mapped is taken
back by unmapping the region up to the entry that needed a table, and that range can
miss tables on the way to that entry: all of those that begin at the entry. Such
tables keep a user they should not have (`regionPlan` counts them), which wastes them
and does no other harm, as long as all tables on the way begin at the entry. If some
begin earlier, they may be freed with the others still linked in them. This is what
`Strands` says, and what the theorems on runs exclude.
-/

namespace TrustedFirmware.Xlat

open Lib Lib.Radix MmapRegion XlatState Option

/-! ### Running out of tables -/

/-- The tables that mapping a region asks for, in order: the depth and the address of
the entries that need one. -/
def tableRequests (ctx : XlatCtx) (s : XlatState) (mm : MmapRegion) : List (Nat × Nat) :=
  requestsFrom ctx mm s .base 0 ctx.baseDepth ctx.baseTableEntries 0

/-- The entry for which there is no table left, if there is one. -/
def stopPoint (ctx : XlatCtx) (s : XlatState) (mm : MmapRegion) : Option (Nat × Nat) :=
  (tableRequests ctx s mm)[freeCount ctx s]?

/-- A walk that stops at `f` leaves a table with a user behind: it went through a
table that begins at the entry, or took nothing back. -/
def Leaks (ctx : XlatCtx) (mm : MmapRegion) (f : Nat × Nat) : Prop :=
  f.1 < ctx.baseDepth ∧ (f.2 ≤ mm.range.lo ∨ geo.size (f.1 + 1) ∣ f.2)
  deriving Decidable

/-- A walk that stops at `f` can leave tables behind in a table that is freed: it went
through a table that begins at the entry, and through one that begins before. -/
def Strands (ctx : XlatCtx) (mm : MmapRegion) (f : Nat × Nat) : Prop :=
  f.1 < ctx.baseDepth ∧ mm.range.lo < f.2 ∧ geo.size (f.1 + 1) ∣ f.2 ∧
    ¬ geo.size ctx.baseDepth ∣ f.2
  deriving Decidable

/-- The part of a region below `v`. -/
def MmapRegion.truncate (mm : MmapRegion) (v : Nat) : MmapRegion :=
  { mm with size := BitVec.ofNat 64 v - mm.baseVa }

variable {a : U64}

variable {ctx : XlatCtx} {allowed : MmapRegion → U32 → Prop} {rs : List MmapRegion}
  {ls : List (Nat × Nat)} {mm : MmapRegion} {s s' : XlatState} {F : Nat → Prop}
  {f : Nat × Nat} {k endVa d x : Nat}

/-- The blocks of two aligned sizes are nested. -/
theorem block_within {e d v x : Nat} (hed : e ≤ d) (hv : geo.size e ∣ v) (hx : geo.size d ∣ x)
    (hle : x ≤ v) (hlt : v < x + geo.size d) : v + geo.size e ≤ x + geo.size d := by
  obtain ⟨a, ha⟩ := geo.size_dvd hed
  obtain ⟨b, rfl⟩ := hv
  obtain ⟨c, rfl⟩ := hx
  rw [ha] at hlt ⊢
  have hlt' : b < a * c + a := by
    refine Nat.lt_of_mul_lt_mul_left (a := geo.size e) ?_
    rw [mul_add, ← mul_assoc]
    exact hlt
  calc geo.size e * b + geo.size e = geo.size e * (b + 1) := by ring
    _ ≤ geo.size e * (a * c + a) := Nat.mul_le_mul_left _ hlt'
    _ = geo.size e * a * c + geo.size e * a := by ring

theorem eq_of_block {d v x : Nat} (hv : geo.size d ∣ v) (hx : geo.size d ∣ x) (hle : x ≤ v)
    (hlt : v < x + geo.size d) : x = v := by
  obtain ⟨a, ha⟩ := hv
  obtain ⟨b, hb⟩ := hx
  subst ha hb
  have h1 := le_of_mul_le_mul_left hle (geo.size_pos d)
  have h2 : a < b + 1 := by
    refine Nat.lt_of_mul_lt_mul_left (a := geo.size d) ?_
    exact hlt
  rw [show a = b by omega]

/-- Where a walk stopped: in a block that the region meets. -/
structure StopAt (ctx : XlatCtx) (mm : MmapRegion) (f : Nat × Nat) : Prop where
  depth_le : f.1 ≤ ctx.baseDepth
  dvd : geo.size f.1 ∣ f.2
  meets : mm.range.Meets f.2 (geo.size f.1)
  lt : f.2 < ctx.treeAt ctx.baseTableEntries

theorem MapStopped.stopAt (h : RegionStopped ctx mm F f s s' k endVa) : StopAt ctx mm f where
  depth_le := h.fails.depth_le
  dvd := h.fails.dvd (ctx.dvd_treeAt k)
  meets := h.fails.meets_stop h.meets
  lt := by
    have hmono := geo.kidAt_mono 0 ctx.baseDepth (h.lt)
    rw [← geo.kidAt_add_size] at hmono
    exact h.fails.lt_end.trans_le hmono

/-- No descriptor is around the block where a walk stopped. -/
theorem StopAt.not_around_leaf (h : StopAt ctx mm f) (hap : ∀ r ∈ rs, r.range.Apart mm.range)
    (hleaf : (regionPlan ctx.regime allowed rs ls).leaf d x a) : ¬ Around geo f d x := by
  intro har
  have hwit := block_within (har.1.le) h.dvd hleaf.1 har.2.1 har.2.2
  exact regionPlan_clear hap hleaf (h.meets.mono har.2.1 hwit)

theorem regionPlan_count_leak (d x : Nat) : (regionPlan ctx.regime allowed rs (f :: ls)).count d x =
      (regionPlan ctx.regime allowed rs ls).count d x + if Around geo f d x then 1 else 0 := by
  simp only [regionPlan, List.countP_cons, decide_eq_true_eq]
  omega

theorem regionPlan_leaf_leak (hleaf : (regionPlan ctx.regime allowed rs ls).leaf d x a)
    (hnot : ¬ Around geo f d x) : (regionPlan ctx.regime allowed rs (f :: ls)).leaf d x a := by
  obtain ⟨hx, hd, hls, hex⟩ := hleaf
  exact ⟨hx, hd, List.forall_mem_cons.mpr ⟨hnot, hls⟩, hex⟩

/-- A walk that stopped before it mapped anything. -/
theorem StopAt.follow_of_le (h : StopAt ctx mm f) (hap : ∀ r ∈ rs, r.range.Apart mm.range)
    (hlo : f.2 ≤ mm.range.lo)
    (hs : TablesFollow ctx ((regionPlan ctx.regime allowed rs ls).stall geo (mm.paint ctx) f) s) :
    TablesFollow ctx (regionPlan ctx.regime allowed rs (f :: ls)) s := by
  have hnot : ¬ (mm.paint ctx).lo < f.2 := not_lt.mpr hlo
  refine hs.congr (fun d x _ _ => ?_) (fun d x a _ _ hleaf => ?_)
  · rw [regionPlan_count_leak]
    refine congrArg (_ + ·) (if_congr ?_ rfl rfl)
    exact ⟨.inr, fun ht => ht.resolve_left fun h => hnot h.1⟩
  · rcases hleaf with hleaf | ⟨-, hb, hle, -⟩
    · exact regionPlan_leaf_leak hleaf (h.not_around_leaf hap hleaf)
    · have hcov : (mm.paint ctx).lo ≤ x := hb.1.1
      have hpos := geo.size_pos d
      omega

theorem StopAt.truncate_range (h : StopAt ctx mm f) (hlo : mm.range.lo < f.2) :
    (mm.truncate f.2).range = mm.range.upTo f.2 := by
  have hhi := h.meets.1.le
  simp only [range] at hlo hhi
  simp only [truncate, range, Range.upTo, Range.mk.injEq, true_and]
  bv_omega

theorem apart_truncate (h : StopAt ctx mm f) (hlo : mm.range.lo < f.2)
    {r : MmapRegion} (hap : r.range.Apart mm.range) :
    r.range.Apart (mm.truncate f.2).range := by
  rw [h.truncate_range hlo]
  have hhi := h.meets.1
  unfold Range.Apart at hap ⊢
  simp only [Range.upTo]
  omega

section

variable (h : StopAt ctx mm f) (hap : ∀ r ∈ rs, r.range.Apart mm.range)
  (hall : allowed (mm.truncate f.2) mm.attr) (hlo : mm.range.lo < f.2)
include h hap hall hlo

/-- The written part of a stopped walk is the truncated region. -/
theorem StopAt.leaf_truncate (hx : geo.size d ∣ x)
    (hleaf : ((regionPlan ctx.regime allowed rs ls).stall geo (mm.paint ctx) f).leaf d x a) :
    (regionPlan ctx.regime allowed (mm.truncate f.2 :: rs) ls).leaf d x a := by
  have hgr : Plan.GrowsOn geo ((mm.truncate f.2).paint ctx) (regionPlan ctx.regime allowed rs ls)
      (regionPlan ctx.regime allowed (mm.truncate f.2 :: rs) ls) x (x + geo.size d) :=
    regionPlan_growsOn hall (fun r hr => .inr (apart_truncate h hlo (hap r hr))) x _
  rcases hleaf with hleaf | ⟨h0, hb, hle, hv⟩
  · exact hgr.keep d x a le_rfl le_rfl hleaf
  · refine hgr.write d x a le_rfl le_rfl hx h0 ⟨?_, hb.2⟩ hv
    show (mm.truncate f.2).range.Covers x (geo.size d)
    rw [h.truncate_range hlo]
    exact ⟨hb.1.1, hle⟩

variable
  (hs : TablesFollow ctx ((regionPlan ctx.regime allowed rs ls).stall geo (mm.paint ctx) f) s)
include hs

/-- A walk that stopped inside a table after its first entry: what it went through is
what the mapped part of the region meets. -/
theorem StopAt.follow_of_not_dvd (hnot : ¬ geo.size (f.1 + 1) ∣ f.2) :
    TablesFollow ctx (regionPlan ctx.regime allowed (mm.truncate f.2 :: rs) ls) s := by
  have hrg := h.truncate_range hlo
  refine hs.congr (fun d x _ hx => ?_)
    (fun d x a _ hx hleaf => h.leaf_truncate hap hall hlo hx hleaf)
  have hiff : Touched geo (mm.paint ctx) f d x ↔ (mm.truncate f.2).range.Meets x (geo.size d) := by
    rw [hrg]
    refine ⟨?_, fun hm => .inl ⟨hlo, hm⟩⟩
    rintro (⟨-, hm⟩ | ⟨hdep, hle, hlt⟩)
    · exact hm
    · refine ⟨lt_of_le_of_ne hle ?_, lt_trans hlo hlt⟩
      rintro rfl
      exact hnot ((geo.size_dvd hdep).trans hx)
  by_cases hm : (mm.truncate f.2).range.Meets x (geo.size d)
  · rw [regionPlan_count_of_meets hm, Plan.count_stall_of_touched (hiff.mpr hm)]
  · rw [regionPlan_count_of_not_meets hm, Plan.count_stall_of_not_touched (mt hiff.mp hm)]

/-- A walk that stopped at the first entry of all tables it was in: the mapped part of
the region meets none of those. -/
theorem StopAt.follow_of_dvd (hdvd : geo.size ctx.baseDepth ∣ f.2) :
    TablesFollow ctx (regionPlan ctx.regime allowed (mm.truncate f.2 :: rs) (f :: ls)) s := by
  have hrg := h.truncate_range hlo
  refine hs.congr (fun d x hd hx => ?_) (fun d x a _ hx hleaf => ?_)
  · rw [regionPlan_count_leak]
    have hexcl : Around geo f d x → ¬ (mm.truncate f.2).range.Meets x (geo.size d) := by
      rintro ⟨-, hle, hlt⟩ hm
      rw [hrg] at hm
      exact absurd (eq_of_block ((geo.size_dvd hd).trans hdvd) hx hle hlt) (ne_of_lt hm.1)
    have htch : Touched geo (mm.paint ctx) f d x ↔
        (mm.truncate f.2).range.Meets x (geo.size d) ∨ Around geo f d x := by
      rw [hrg]
      exact or_congr_left (and_iff_right hlo)
    by_cases hm : (mm.truncate f.2).range.Meets x (geo.size d)
    · rw [regionPlan_count_of_meets hm, if_neg fun ha => hexcl ha hm, add_zero,
        Plan.count_stall_of_touched (htch.mpr (.inl hm))]
    · rw [regionPlan_count_of_not_meets hm]
      refine congrArg (_ + ·) (if_congr ?_ rfl rfl)
      rw [htch, or_iff_right hm]
  · refine regionPlan_leaf_leak (h.leaf_truncate hap hall hlo hx hleaf) ?_
    rcases hleaf with hleaf | ⟨-, -, hle, -⟩
    · exact h.not_around_leaf hap hleaf
    · exact fun ha => absurd ha.2.2 (by omega)

end

/-- The region that takes a stopped walk back has the addresses of the truncated one. -/
theorem undoRegion_walkable (hmm : mm.Walkable) (h : StopAt ctx mm f) (hlo : mm.range.lo < f.2) :
    (undoRegion mm f.2).Walkable ∧ (undoRegion mm f.2).range = (mm.truncate f.2).range := by
  refine ⟨?_, rfl⟩
  have hrg := h.truncate_range hlo
  have hhi := h.meets.1
  have hle := hmm.va_le
  have hpage : pageSize ∣ f.2 := (pageSize_dvd_size f.1).trans h.dvd
  have hsize : (undoRegion mm f.2).size.toNat = f.2 - mm.baseVa.toNat := by
    have hend : mm.baseVa.toNat + (BitVec.ofNat 64 f.2 - mm.baseVa).toNat = f.2 :=
      congrArg Range.hi hrg
    show (BitVec.ofNat 64 f.2 - mm.baseVa).toNat = _
    omega
  simp only [range] at hlo hhi
  refine ⟨?_, hmm.va_aligned, ?_, ?_⟩
  · omega
  · rw [hsize]
    exact Nat.dvd_sub hpage hmm.va_aligned
  · show mm.baseVa.toNat + _ ≤ _
    omega

/-- An entry of the base table other than the first one is not the first of a table. -/
theorem StopAt.not_dvd_base (hs : VaSpace ctx) (h : StopAt ctx mm f) (hdep : f.1 = ctx.baseDepth)
    (hpos : 0 < f.2) : ¬ geo.size (f.1 + 1) ∣ f.2 := by
  intro hdvd
  have hfan : ctx.treeAt ctx.baseTableEntries ≤ geo.fan * geo.size ctx.baseDepth := by
    simp only [Geometry.kidAt, zero_add]
    exact Nat.mul_le_mul_right _ hs.entries_le
  have hle := Nat.le_of_dvd hpos hdvd
  rw [hdep, geo.size_succ] at hle
  exact absurd (h.lt.trans_le hfan) (not_lt.mpr hle)

/-- **Taking a stopped walk back.** Unless it strands tables, the tables follow the
regions that were there before. -/
theorem StopAt.undo (hs : VaSpace ctx) (hmm : RegionOk ctx mm) (h : StopAt ctx mm f)
    (hap : ∀ r ∈ rs, r.range.Apart mm.range) (hall : ∀ r, allowed r r.attr)
    (hnot : ¬ Strands ctx mm f) (hlo : mm.range.lo < f.2)
    (hfol : TablesFollow ctx ((regionPlan ctx.regime allowed rs ls).stall geo (mm.paint ctx) f) s) :
    ∃ s' ls', unmapRegion ctx s (undoRegion mm f.2) = some s' ∧
      TablesFollow ctx (regionPlan ctx.regime allowed rs ls') s' := by
  have hwalk := (hmm.mappable hs).toWalkable
  have hplan : ∃ ls', TablesFollow ctx
      (regionPlan ctx.regime allowed (mm.truncate f.2 :: rs) ls') s := by
    by_cases hdvd : geo.size (f.1 + 1) ∣ f.2
    · rcases lt_or_eq_of_le h.depth_le with hdep | hdep
      · have hbase : geo.size ctx.baseDepth ∣ f.2 := by
          by_contra hbase
          exact hnot ⟨hdep, hlo, hdvd, hbase⟩
        exact ⟨f :: ls, h.follow_of_dvd hap (hall _) hlo hfol hbase⟩
      · exact absurd hdvd (h.not_dvd_base hs hdep (pos_of_gt hlo))
    · exact ⟨ls, h.follow_of_not_dvd hap (hall _) hlo hfol hdvd⟩
  obtain ⟨ls', hplan⟩ := hplan
  have hrdy : UnmapReady (mm.truncate f.2)
      (regionPlan ctx.regime allowed (mm.truncate f.2 :: rs) ls')
      (regionPlan ctx.regime allowed rs ls') :=
    regionPlan_unmapReady fun r hr => apart_truncate h hlo (hap r hr)
  obtain ⟨hundo, hrg⟩ := undoRegion_walkable hwalk h hlo
  have hhi : (undoRegion mm f.2).range.hi ≤ ctx.treeAt ctx.baseTableEntries := by
    rw [hrg, h.truncate_range hlo]
    exact h.lt.le
  obtain ⟨s', hunm, hfollow', -⟩ := hplan.unmapRegion hs hundo hhi
    ⟨hrdy.shrinks, hrdy.type, hrdy.inside⟩ regionPlan_ok
  exact ⟨s', ls', hunm, hfollow'⟩

/-! ### The invariant -/

/-- The regions are in order and, once the context is initialised, the tables follow
them. -/
structure XlatInv (ctx : XlatCtx) (allowed : MmapRegion → U32 → Prop) (s : XlatState) :
    Prop where
  mmap : MmapOk ctx s
  tables : s.initialized = true → VaSpace ctx ∧
    ∃ ls, TablesFollow ctx (regionPlan ctx.regime allowed s.live ls) s

/-- The call strands tables: it adds a region for which there are not enough tables. -/
def StrandsTables (ctx : XlatCtx) (s : XlatState) : XlatOp → Prop
  | .addDynamicRegion mm =>
    s.initialized = true ∧ mm.size ≠ 0 ∧ mmapAddRegionCheck ctx s mm.asDynamic = 0 ∧
      (stopPoint ctx s mm.asDynamic).any (fun f => Strands ctx mm.asDynamic f) = true
  | _ => False

instance (ctx : XlatCtx) (s : XlatState) : (op : XlatOp) → Decidable (StrandsTables ctx s op)
  | .addDynamicRegion _ => inferInstanceAs (Decidable (_ ∧ _))
  | .addRegion _ | .removeDynamicRegion _ _ | .init | .changeMemAttributes _ _ _ =>
    inferInstanceAs (Decidable False)

theorem isDynamic_asDynamic (mm : MmapRegion) : mm.asDynamic.isDynamic = true := by
  have hself : (mm.attr ||| mtDynamic) &&& mtDynamic = mtDynamic := by
    rw [BitVec.and_or_distrib_right, BitVec.and_self]
    exact BitVec.eq_of_getLsbD_eq fun i hi => by simp
  unfold isDynamic asDynamic
  rw [hself]
  decide

theorem MmapRegion.Coexist.apart {a b : MmapRegion} (h : a.Coexist b)
    (hdyn : a.isDynamic = true) : b.range.Apart a.range := by
  rcases h with ⟨-, -, ha, -⟩ | ⟨hap, -⟩
  · cases hdyn.symm.trans ha
  · exact hap.symm

theorem stopPoint_of_same (h : s.SameTables s') (mm : MmapRegion) :
    stopPoint ctx s' mm = stopPoint ctx s mm := by
  have hfree : freeCount ctx s' = freeCount ctx s := freeCount_congr fun j _ => by rw [h.counts]
  unfold stopPoint tableRequests
  rw [requestsFrom_congr fun k _ => h.kids_eq _ _ _ k, hfree]

/-- A walk that gets to the end asks for no more tables than there are. -/
theorem MapDone.stopPoint {endVa : Nat} (h : RegionDone ctx mm s s' endVa) :
    stopPoint ctx s mm = none := by
  have hfree := h.free
  exact List.getElem?_eq_none (by unfold tableRequests; omega)

theorem MapStopped.stopPoint {F : Nat → Prop} {f : Nat × Nat} {k endVa : Nat}
    (h : RegionStopped ctx mm F f s s' k endVa) : stopPoint ctx s mm = some f := h.request

/-- The regions that a dynamic region to be added has to be apart from. -/
theorem MmapOk.apart_dynamic (hok : MmapOk ctx s) (hsize : mm.size ≠ 0)
    (hdyn : mm.isDynamic = true) (hchk : mmapAddRegionCheck ctx s mm = 0) :
    RegionOk ctx mm ∧ ∀ r ∈ s.live, r.range.Apart mm.range := by
  obtain ⟨hmm, -, hcmp⟩ := mmapAddRegionCheck_eq_zero hsize hchk
  refine ⟨hmm, fun r hr => ?_⟩
  exact (coexist_of_compatible hmm (hok.valid r hr) (hcmp r hr)).apart hdyn

section

variable (h : XlatInv ctx allowed s) (hall : ∀ r, allowed r r.attr) (hdyn : mm.isDynamic = true)
  (hsize : mm.size ≠ 0) (hchk : mmapAddRegionCheck ctx s mm = 0) {mmap : List MmapRegion}
  (hmmap : MmapArray ctx mmap (s.inserted mm)) {ret : Int}
  (hmap : mapDynamicRegion ctx { s with mmap := mmap } mm (insertPosition s.mmap mm) =
    some (s', ret))
include h hall hdyn hsize hchk hmmap hmap

/-- **The walk that adds a dynamic region** maps all of it, or stops and is taken back. -/
theorem XlatInv.dynamicWalk (hinit : s.initialized = true) :
    VaSpace ctx ∧ ∃ ls F s₁, TablesFollow ctx (regionPlan ctx.regime allowed s.live ls) s ∧
      RegionWrites ctx F { s with mmap := mmap } s₁ ∧ { s with mmap := mmap }.SameRegions s₁ ∧
      ((∃ endVa, RegionDone ctx mm { s with mmap := mmap } s₁ endVa ∧ s' = s₁.raiseMax mm ∧
          ret = 0 ∧ TablesFollow ctx (regionPlan ctx.regime allowed (mm :: s.live) ls) s') ∨
        ∃ f k, RegionStopped ctx mm F f { s with mmap := mmap } s₁ k f.2 ∧
          stopPoint ctx s mm = some f ∧ ret = -eNoMem ∧
          TablesFollow ctx ((regionPlan ctx.regime allowed s.live ls).stall geo (mm.paint ctx) f)
            { s₁ with mmap := s.mmap } ∧
          ((f.2 ≤ mm.range.lo ∧ s' = { s₁ with mmap := s.mmap }) ∨ (mm.range.lo < f.2 ∧
            unmapRegion ctx { s₁ with mmap := s.mmap } (undoRegion mm f.2) = some s'))) := by
  obtain ⟨hs, ls, hfol⟩ := h.tables hinit
  obtain ⟨hmm, hap⟩ := h.mmap.apart_dynamic hsize hdyn hchk
  have hsame : s.SameTables { s with mmap := mmap } := ⟨rfl, rfl, rfl⟩
  have hfollow₀ := hfol.of_same hsame
  have hnest : ∀ r ∈ s.live, r.Inside mm ∨ r.range.Apart mm.range :=
    fun r hr => .inr (hap r hr)
  rcases mapDynamicRegion_eq_some h.mmap hmmap hmap with ⟨hno, -⟩ | ⟨-, s₁, endVa, hs₁, hrest⟩
  · cases hno.symm.trans hinit
  obtain ⟨F, hw, hres⟩ := hfollow₀.mapRegion hs (hmm.mappable hs) (hmm.hi_le hs)
    (regionPlan_mapReady hnest) hs₁
  refine ⟨hs, ls, F, s₁, hfol, hw, sameRegions_xlatTablesMapRegion hs₁, ?_⟩
  rcases hrest with ⟨heq, rfl, hret⟩ | ⟨hne, hret, hback⟩
  · have hdone := (hres.resolve_right fun h => h.1 heq).2
    exact .inl ⟨endVa, hdone, rfl, hret, (hfollow₀.mapDone regionPlan_ok
      (regionPlan_growsOn (hall mm) hnest) hw hdone).of_same ⟨rfl, rfl, rfl⟩⟩
  · obtain ⟨-, f, k, hstop⟩ := hres.resolve_left fun h => hne h.1
    obtain rfl := hstop.endVa
    refine .inr ⟨f, k, hstop, ?_, hret, ?_, hback⟩
    · rw [← stopPoint_of_same hsame]
      exact hstop.stopPoint
    · exact (hfollow₀.mapStopped regionPlan_ok hw hstop).of_same ⟨rfl, rfl, rfl⟩

/-- **Adding a dynamic region** to an initialised context. -/
theorem XlatInv.mapDynamicRegion
    (hnot : s.initialized = true → ∀ f, stopPoint ctx s mm = some f → ¬ Strands ctx mm f)
    (hinit : s'.initialized = true) :
    VaSpace ctx ∧ ∃ ls, TablesFollow ctx (regionPlan ctx.regime allowed s'.live ls) s' := by
  have hyes : s.initialized = true := by
    rcases mapDynamicRegion_eq_some h.mmap hmmap hmap with ⟨hno, rfl, -⟩ | ⟨hyes, -⟩
    · cases hno.symm.trans hinit
    · exact hyes
  obtain ⟨hmm, hap⟩ := h.mmap.apart_dynamic hsize hdyn hchk
  obtain ⟨hs, ls, F, s₁, -, -, hregs, hend⟩ := h.dynamicWalk hall hdyn hsize hchk hmmap hmap hyes
  refine ⟨hs, ?_⟩
  rcases hend with ⟨endVa, -, rfl, -, hfol⟩ | ⟨f, k, hstop, hpt, -, hstl, hback⟩
  · have hlive : (s₁.raiseMax mm).live = s.inserted mm := by
      have hmmap₁ : s₁.mmap = mmap := hregs.mmap
      rw [← hmmap₁] at hmmap
      exact hmmap.live_eq
    refine ⟨ls, ?_⟩
    rw [hlive, regionPlan_perm (s.inserted_perm mm)]
    exact hfol
  · rcases hback with ⟨hle, rfl⟩ | ⟨hlt, hunm⟩
    · exact ⟨f :: ls, hstop.stopAt.follow_of_le hap hle hstl⟩
    · obtain ⟨s₂, ls', hs₂, hfollow₂⟩ :=
        hstop.stopAt.undo hs hmm hap hall (hnot hyes f hpt) hlt hstl
      cases hunm.symm.trans hs₂
      have hlive : s'.live = s.live :=
        congrArg liveRegions (sameRegions_xlatTablesUnmapRegion hs₂).mmap
      rw [hlive]
      exact ⟨ls', hfollow₂⟩

end

theorem MmapOk.apart_of_dynamic {front back : List MmapRegion} (hok : MmapOk ctx s)
    (hlive : s.live = front ++ mm :: back) (hdyn : mm.isDynamic = true) :
    ∀ r ∈ front ++ back, r.range.Apart mm.range := by
  have hco := hok.coexist
  rw [hlive, List.perm_middle.pairwise_iff fun h => h.symm, List.pairwise_cons] at hco
  exact fun r hr => (hco.1 r hr).apart hdyn

/-- **Removing a dynamic region** of an initialised context succeeds. -/
theorem XlatInv.unmapDynamicRegion (h : XlatInv ctx allowed s) (hinit : s.initialized = true)
    {front back : List MmapRegion} (hlive : s.live = front ++ mm :: back)
    (hdyn : mm.isDynamic = true) :
    VaSpace ctx ∧ ∃ s' ls, unmapRegion ctx s mm = some s' ∧
      TablesFollow ctx (regionPlan ctx.regime allowed (front ++ back) ls) s' := by
  obtain ⟨hs, ls, hfol⟩ := h.tables hinit
  have hmm : RegionOk ctx mm := h.mmap.valid mm (by rw [hlive]; simp)
  rw [hlive, regionPlan_perm List.perm_middle] at hfol
  obtain ⟨s', hunm, hfollow', -⟩ := hfol.unmapRegion hs (hmm.mappable hs).toWalkable
    (hmm.hi_le hs) (regionPlan_unmapReady (h.mmap.apart_of_dynamic hlive hdyn)) regionPlan_ok
  exact ⟨hs, s', ls, hunm, hfollow'⟩

theorem tablesFollow_cleared (ctx : XlatCtx) (allowed : MmapRegion → U32 → Prop) (s : XlatState) :
    TablesFollow ctx (regionPlan ctx.regime allowed [] []) (s.cleared ctx) := by
  have htree : ∀ k, (s.cleared ctx).kids ctx ctx.baseDepth .base ctx.baseTableEntries k =
      .empty := by
    intro k
    by_cases hk : k < ctx.baseTableEntries
    · have hread : (s.cleared ctx).read .base k = invalidDesc := if_pos hk
      rw [kids_of_lt hk, hread, node_invalid]
    · exact kids_of_not_lt hk
  refine ⟨⟨?_, ?_, ?_, ?_, ?_⟩, ?_, ?_, ?_⟩
  · intro i k j _ hj
    rw [htree i] at hj
    exact hj.elim
  · intro i j hj
    cases hj
  · intro i
    rw [htree i]
    trivial
  · intro i j hj
    rw [htree i] at hj
    exact hj.elim
  · intro j hj
    cases hj
  · intro j hj _ i hi
    exact if_pos ⟨hj, hi⟩
  · intro k hk
    rw [tree, htree k]
    rfl
  · intro j hj hne
    exact absurd (if_pos hj) hne

/-- The regions before another one in the array are inside it or apart from it. -/
theorem MmapRegion.Coexist.nested {a b : MmapRegion} (ha : RegionOk ctx a) (hb : RegionOk ctx b)
    (h : a.Coexist b) (hbef : a.Before b) : a.Inside b ∨ a.range.Apart b.range := by
  rcases h with ⟨hin | hin, -⟩ | ⟨hap, -⟩
  · exact .inl hin
  · have haEnd := ha.endVa
    have hbEnd := hb.endVa
    obtain ⟨hlo, hhi, -⟩ := hin
    unfold MmapRegion.Before at hbef
    simp only [BitVec.lt_def, ← BitVec.toNat_inj] at hbef
    simp only [range] at hlo hhi
    omega
  · exact .inr hap

/-- **Mapping the regions of the array in order.** -/
theorem TablesFollow.mapRegions (hs : VaSpace ctx) (hall : ∀ r, allowed r r.attr)
    (mms : List MmapRegion) {rs : List MmapRegion} {s : XlatState}
    (h : TablesFollow ctx (regionPlan ctx.regime allowed rs []) s)
    (hval : ∀ mm ∈ mms, RegionOk ctx mm) (hrs : ∀ r ∈ rs, RegionOk ctx r)
    (hsrt : (rs.reverse ++ mms).Pairwise MmapRegion.Before)
    (hco : (rs.reverse ++ mms).Pairwise MmapRegion.Coexist)
    (hmap : mapRegions ctx s mms = some s') :
    TablesFollow ctx (regionPlan ctx.regime allowed (mms.reverse ++ rs) []) s' := by
  induction mms generalizing rs s with
  | nil =>
    cases hmap
    exact h
  | cons mm mms ih =>
    have hmm := hval mm List.mem_cons_self
    have hnest : ∀ r ∈ rs, r.Inside mm ∨ r.range.Apart mm.range := by
      intro r hr
      have hbef := (List.pairwise_append.mp hsrt).2.2 r (List.mem_reverse.mpr hr) mm
        List.mem_cons_self
      have hcoex := (List.pairwise_append.mp hco).2.2 r (List.mem_reverse.mpr hr) mm
        List.mem_cons_self
      exact hcoex.nested (hrs r hr) hmm hbef
    rw [Xlat.mapRegions] at hmap
    split at hmap
    · cases hmap
    next s₁ endVa hs₁ =>
      split_ifs at hmap with hne
      rw [not_not] at hne
      obtain ⟨F, hw, ⟨-, hdone⟩ | ⟨hne', -⟩⟩ := h.mapRegion hs (hmm.mappable hs) (hmm.hi_le hs)
        (regionPlan_mapReady hnest) hs₁
      · have hfol := h.mapDone regionPlan_ok (regionPlan_growsOn (hall mm) hnest) hw hdone
        have hrev : (mm :: rs).reverse ++ mms = rs.reverse ++ mm :: mms := by simp
        have hnext := ih hfol (fun r hr => hval r (List.mem_cons_of_mem mm hr))
          (List.forall_mem_cons.mpr ⟨hmm, hrs⟩) (hrev ▸ hsrt) (hrev ▸ hco) hmap
        rw [List.reverse_cons, List.append_assoc]
        exact hnext
      · exact absurd hne hne'

/-- The calls that change the regions. -/
def XlatOp.isRegionOp : XlatOp → Bool
  | .changeMemAttributes _ _ _ => false
  | _ => true

/-- **One call on the regions** keeps the tables in step with them, unless it strands
tables. -/
theorem XlatInv.step_region (h : XlatInv ctx allowed s) (hall : ∀ r, allowed r r.attr)
    {op : XlatOp} (hop : op.isRegionOp = true) (hnot : ¬ StrandsTables ctx s op)
    (hstep : s.step ctx op = some s') : XlatInv ctx allowed s' := by
  refine ⟨h.mmap.step hstep, fun hinit => ?_⟩
  cases op with
  | addRegion =>
    rcases mmapAddRegionCtx_eq_some h.mmap hstep with rfl | ⟨hno, -, -, mmap, -, rfl⟩
    · exact h.tables hinit
    · cases hno.symm.trans hinit
  | addDynamicRegion mm =>
    obtain ⟨⟨t, ret⟩, ht, rfl⟩ := map_eq_some_iff.mp hstep
    rcases mmapAddDynamicRegionCtx_eq_some h.mmap ht with
      ⟨-, rfl, -⟩ | ⟨-, rfl, -⟩ | ⟨hsize, hchk, mmap, hmmap, hmap⟩
    · exact h.tables hinit
    · exact h.tables hinit
    · refine h.mapDynamicRegion hall (isDynamic_asDynamic mm) hsize hchk hmmap hmap ?_ hinit
      intro hyes f hf hstr
      exact hnot ⟨hyes, hsize, hchk, by rw [hf]; exact decide_eq_true hstr⟩
  | removeDynamicRegion =>
    obtain ⟨⟨t, ret⟩, ht, rfl⟩ := map_eq_some_iff.mp hstep
    rcases mmapRemoveDynamicRegionCtx_eq_some h.mmap ht with
      rfl | ⟨front, mm, back, mmap, s₁, hlive, hdyn, hmmap, hs₁, rfl⟩
    · exact h.tables hinit
    · split_ifs at hs₁ with hyes
      · obtain ⟨hs, s₂, ls, hs₂, hfol⟩ := h.unmapDynamicRegion hyes hlive hdyn
        cases hs₁.symm.trans hs₂
        refine ⟨hs, ls, ?_⟩
        rw [show (s₁.dropRegion mm mmap).live = front ++ back from hmmap.live_eq]
        exact hfol.of_same ⟨rfl, rfl, rfl⟩
      · cases hs₁
        exact absurd hinit hyes
  | init =>
    unfold step initXlatTablesCtx at hstep
    split_ifs at hstep with hbad
    obtain ⟨s₁, hs₁, hrest⟩ := bind_eq_some_iff.mp hstep
    split_ifs at hrest
    cases hrest
    simp only [not_or, not_not] at hbad
    have hs := XlatCtx.vaSpace hbad.2
    refine ⟨hs, [], ?_⟩
    have hlive : s₁.live = s.live :=
      congrArg liveRegions (sameRegions_mapRegions hs₁).mmap
    have hfol := (tablesFollow_cleared ctx allowed s).mapRegions hs hall s.live
      h.mmap.valid (by simp) (by simpa using h.mmap.sorted) (by simpa using h.mmap.coexist) hs₁
    rw [List.append_nil, regionPlan_perm (List.reverse_perm s.live), ← hlive] at hfol
    exact hfol.of_same ⟨rfl, rfl, rfl⟩
  | changeMemAttributes => exact absurd hop Bool.false_ne_true

theorem XlatState.Registered.xlatInv (h : s.Registered ctx) : XlatInv ctx allowed s :=
  ⟨h.mmapOk, fun hinit => absurd (h.initialized.symm.trans hinit) (by decide)⟩

end TrustedFirmware.Xlat
