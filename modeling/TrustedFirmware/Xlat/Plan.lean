import TrustedFirmware.Xlat.Regions
import TrustedFirmware.Xlat.UnmapSound

/-!
# What the tables should hold

The regions of a context make a plan of its tables: a table has one user for each region
that meets its block, and a block or page descriptor is that of the innermost region
there (`regionPlan`). A failed call can leave tables behind; the plan counts those as
users too.

`TablesFollow` says that the tables follow a plan and that no table in use is out of
reach. The theorems take it through one mapping, complete or stopped, and one
unmapping of a region.
-/

namespace TrustedFirmware.Xlat

open Lib Lib.Radix List XlatState

/-! ### The address space -/

/-- The base table covers the virtual addresses of a context, and no more. -/
structure VaSpace (ctx : XlatCtx) : Prop where
  entries_pos : 0 < ctx.baseTableEntries
  entries_le : ctx.baseTableEntries ≤ xlatTableEntries
  total : ctx.baseTableEntries * geo.size ctx.baseDepth = ctx.vaMaxAddress.toNat + 1
  le : ctx.vaMaxAddress.toNat + 1 ≤ 2 ^ 48

theorem base_table_two_pow : ∀ b < 49, 16 ≤ b →
    0 < getNumBaseLevelEntries (2 ^ b) ∧ getNumBaseLevelEntries (2 ^ b) ≤ xlatTableEntries ∧
      getNumBaseLevelEntries (2 ^ b) *
        geo.size (xlatTableLevelMax - getXlatTableLevelBase (2 ^ b)) = 2 ^ b := by
  decide +kernel

/-- What the assertions of `init_xlat_tables_ctx` establish. -/
theorem XlatCtx.vaSpace {ctx : XlatCtx} (h : ctx.vaSpaceOk = true) : VaSpace ctx := by
  simp only [XlatCtx.vaSpaceOk, decide_eq_true_eq] at h
  obtain ⟨hmin, hmax, hpow⟩ := h
  have hand : (ctx.vaMaxAddress.toNat + 1) &&& ctx.vaMaxAddress.toNat = 0 := by
    have hnat := congrArg BitVec.toNat hpow
    rw [BitVec.toNat_and, BitVec.toNat_add, show BitVec.toNat (1 : U64) = 1 from rfl,
      Nat.mod_eq_of_lt (by omega)] at hnat
    exact hnat
  obtain ⟨b, hb⟩ := (Nat.and_sub_one_eq_zero_iff_isPowerOfTwo (Nat.succ_ne_zero _)).mp hand
  have hge : 2 ^ 16 ≤ 2 ^ b := by
    have : 2 ^ 16 ≤ ctx.minVirtAddrSpaceSize := by
      unfold XlatCtx.minVirtAddrSpaceSize
      split <;> decide
    omega
  have hle : 2 ^ b ≤ 2 ^ 48 := by omega
  have h16 : 16 ≤ b := (Nat.pow_le_pow_iff_right (by decide)).mp hge
  have h48 : b ≤ 48 := (Nat.pow_le_pow_iff_right (by decide)).mp hle
  obtain ⟨hpos, hent, htot⟩ := base_table_two_pow b (by omega) h16
  rw [← hb] at hpos hent htot hle
  exact ⟨hpos, hent, htot, hle⟩

/-! ### The plan of the regions -/

/-- The plan of the regions `rs`, when the tables around the blocks in `ls` have been
left behind by failed calls. The descriptors of a region have attributes that are
allowed for it. -/
def regionPlan (regime : XlatRegime) (allowed : MmapRegion → U32 → Prop) (rs : List MmapRegion)
    (ls : List (Nat × Nat)) : Plan U64 where
  count d x :=
    rs.countP (fun mm => mm.range.Meets x (geo.size d)) + ls.countP (fun f => Around geo f d x)
  leaf d x desc := geo.size d ∣ x ∧ d < 3 ∧ (∀ f ∈ ls, ¬ Around geo f d x) ∧
    ∃ mm ∈ rs, mm.range.Covers x (geo.size d) ∧
      (∃ attr, allowed mm attr ∧ xlatDesc regime attr (mm.paAt x) (3 - d) = some desc) ∧
      ∀ mm' ∈ rs, mm'.range.Meets x (geo.size d) → mm' = mm ∨ mm.Inside mm'

variable {ctx : XlatCtx} {regime : XlatRegime} {allowed : MmapRegion → U32 → Prop}
  {rs rs' : List MmapRegion} {ls : List (Nat × Nat)} {mm : MmapRegion}

theorem regionPlan_perm (h : rs.Perm rs') :
    regionPlan regime allowed rs ls = regionPlan regime allowed rs' ls := by
  have hmem : ∀ r, r ∈ rs ↔ r ∈ rs' := fun r => h.mem_iff
  simp only [regionPlan, h.countP_eq, hmem]

/-- A range that meets a block which another one covers shares an address with it. -/
theorem not_apart_of_covers {r r' : Range} {x n : Nat} (hc : r.Covers x n) (hm : r'.Meets x n) :
    ¬ r.Apart r' := by
  have := hc.1
  have := hc.2
  have := hm.1
  have := hm.2
  unfold Range.Apart
  omega

theorem Around.parent {f : Nat × Nat} {d x i : Nat} (hi : i < geo.fan)
    (h : Around geo f d (geo.kidAt x d i)) : Around geo f (d + 1) x :=
  ⟨Nat.lt_succ_of_lt h.1, (geo.le_kidAt x d i).trans h.2.1,
    h.2.2.trans_le (geo.kidAt_end_le x d hi)⟩

theorem regionPlan_ok : (regionPlan regime allowed rs ls).Ok geo where
  sub d x i hi h0 := by
    obtain ⟨hrs, hls⟩ := Nat.add_eq_zero_iff.mp h0
    rw [countP_eq_zero] at hrs hls
    refine Nat.add_eq_zero_iff.mpr ⟨countP_eq_zero.mpr ?_, countP_eq_zero.mpr ?_⟩
    · intro r hr hm
      have hm' := (of_decide_eq_true hm).mono (geo.le_kidAt x d i) (geo.kidAt_end_le x d hi)
      exact hrs r hr (decide_eq_true hm')
    · intro f hf ha
      exact hls f hf (decide_eq_true (Around.parent hi (of_decide_eq_true ha)))
  leaf_pos d x a hleaf := by
    obtain ⟨-, -, -, r, hr, hc, -⟩ := hleaf
    refine Nat.add_pos_left (countP_pos_iff.mpr ⟨r, hr, ?_⟩) _
    exact decide_eq_true (hc.meets (geo.size_pos d))

theorem regionPlan_type {d x : Nat} {a : U64} (h : (regionPlan regime allowed rs ls).leaf d x a) :
    a &&& descMask = leafType d := by
  obtain ⟨-, -, -, r, -, -, ⟨attr, -, hdesc⟩, -⟩ := h
  exact xlatDesc_leafType hdesc

theorem regionPlan_count_of_meets {d x : Nat} (hm : mm.range.Meets x (geo.size d)) :
    (regionPlan regime allowed (mm :: rs) ls).count d x =
      (regionPlan regime allowed rs ls).count d x + 1 := by
  simp only [regionPlan, countP_cons, hm, decide_true, if_true]
  omega

theorem regionPlan_count_of_not_meets {d x : Nat} (hm : ¬ mm.range.Meets x (geo.size d)) :
    (regionPlan regime allowed (mm :: rs) ls).count d x =
      (regionPlan regime allowed rs ls).count d x := by
  simp only [regionPlan, countP_cons, hm, decide_false, Bool.false_eq_true, if_false, add_zero]

/-- A region more: it may surround regions that are there, and is apart from the
others. -/
theorem regionPlan_growsOn (hall : allowed mm mm.attr)
    (hnest : ∀ r ∈ rs, r.Inside mm ∨ r.range.Apart mm.range) (a b : Nat) :
    Plan.GrowsOn geo (mm.paint ctx) (regionPlan ctx.regime allowed rs ls)
      (regionPlan ctx.regime allowed (mm :: rs) ls) a b where
  meets _ _ _ _ hm := regionPlan_count_of_meets hm
  apart _ _ _ _ hm := regionPlan_count_of_not_meets hm
  keep d x v _ _ hleaf := by
    obtain ⟨hx, hd, hls, r, hr, hc, hdesc, hinn⟩ := hleaf
    refine ⟨hx, hd, hls, r, mem_cons_of_mem mm hr, hc, hdesc,
      forall_mem_cons.mpr ⟨fun hm => .inr ?_, hinn⟩⟩
    exact (hnest r hr).resolve_right (not_apart_of_covers hc hm)
  write d x v _ _ hx h0 hb hv := by
    obtain ⟨hrs, hls⟩ := Nat.add_eq_zero_iff.mp h0
    rw [countP_eq_zero] at hrs hls
    have hd : d < 3 := by
      have hfits := hb.2
      simp only [MmapRegion.paint, decide_eq_true_eq] at hfits
      omega
    refine ⟨hx, hd, fun f hf ha => hls f hf (decide_eq_true ha), mm, mem_cons_self, hb.1,
      ⟨mm.attr, hall, hv⟩, forall_mem_cons.mpr ⟨fun _ => .inl rfl, fun r' hr' hm => ?_⟩⟩
    exact absurd (decide_eq_true hm) (hrs r' hr')

/-- What is there does not get in the way of a region that surrounds it or is apart
from it. -/
theorem regionPlan_mapReady (hnest : ∀ r ∈ rs, r.Inside mm ∨ r.range.Apart mm.range) :
    MapReady mm (regionPlan regime allowed rs ls) where
  ok := regionPlan_ok
  type _ _ _ := regionPlan_type
  inside d x a hleaf hm := by
    obtain ⟨-, -, -, r, hr, hc, -⟩ := hleaf
    have hin := (hnest r hr).resolve_right (not_apart_of_covers hc hm)
    exact ⟨hin.1.trans hc.1, hc.2.trans hin.2.1⟩

section

variable (hap : ∀ r ∈ rs, r.range.Apart mm.range)
include hap

/-- No descriptor is there where a region apart from the others is to go. -/
theorem regionPlan_clear {d x : Nat} {a : U64}
    (hleaf : (regionPlan regime allowed rs ls).leaf d x a) : ¬ mm.range.Meets x (geo.size d) := by
  obtain ⟨-, -, -, r, hr, hc, -⟩ := hleaf
  exact fun hm => not_apart_of_covers hc hm (hap r hr)

/-- A region less, which was apart from the others. -/
theorem regionPlan_shrinks : Plan.Shrinks geo mm.range (regionPlan regime allowed (mm :: rs) ls)
      (regionPlan regime allowed rs ls) where
  meets _ _ hm := regionPlan_count_of_meets hm
  apart _ _ hm := (regionPlan_count_of_not_meets hm).symm
  erase d x v hm hleaf := by
    obtain ⟨-, -, hls, r, hr, hc, -⟩ := hleaf
    have hself : mm.range.Covers x (geo.size d) := by
      rcases mem_cons.mp hr with rfl | hr
      · exact hc
      · exact absurd (hap r hr) (not_apart_of_covers hc hm)
    refine Nat.add_eq_zero_iff.mpr ⟨countP_eq_zero.mpr ?_, countP_eq_zero.mpr ?_⟩
    · intro r' hr' hm'
      exact not_apart_of_covers hself (of_decide_eq_true hm') (hap r' hr').symm
    · intro f hf ha
      exact hls f hf (of_decide_eq_true ha)
  keep d x v hm hleaf := by
    obtain ⟨hx, hd, hls, r, hr, hc, hdesc, hinn⟩ := hleaf
    have hr' : r ∈ rs := by
      rcases mem_cons.mp hr with rfl | hr
      · exact absurd (hc.meets (geo.size_pos d)) hm
      · exact hr
    exact ⟨hx, hd, hls, r, hr', hc, hdesc, fun r' h' => hinn r' (mem_cons_of_mem mm h')⟩

theorem regionPlan_unmapReady :
    UnmapReady mm (regionPlan regime allowed (mm :: rs) ls) (regionPlan regime allowed rs ls) where
  shrinks := regionPlan_shrinks hap
  type _ _ _ := regionPlan_type
  inside d x a hleaf hm := by
    obtain ⟨-, -, -, r, hr, hc, -⟩ := hleaf
    rcases mem_cons.mp hr with rfl | hr
    · exact hc
    · exact absurd (hap r hr) (not_apart_of_covers hc hm)

end

/-! ### Tables that follow a plan -/

/-- What entry `k` of the base table stands for. -/
abbrev XlatState.tree (ctx : XlatCtx) (s : XlatState) (k : Nat) : Node U64 ctx.baseDepth :=
  s.kids ctx ctx.baseDepth .base ctx.baseTableEntries k

/-- The address of entry `k` of the base table. -/
abbrev XlatCtx.treeAt (ctx : XlatCtx) (k : Nat) : Nat := geo.kidAt 0 ctx.baseDepth k

theorem XlatState.lt_of_has {ctx : XlatCtx} {s : XlatState} {j k : Nat}
    (h : (s.tree ctx k).Has j) : k < ctx.baseTableEntries := by
  by_contra hge
  rw [tree, kids_of_not_lt hge] at h
  exact h

/-- The tables follow a plan, a table that is not in use holds nothing, and every
table in use can be reached. -/
structure TablesFollow (ctx : XlatCtx) (l : Plan U64) (s : XlatState) : Prop where
  ok : TableOk ctx s .base ctx.baseDepth ctx.baseTableEntries
  zero : FreeZero ctx s
  follows : ∀ k < ctx.baseTableEntries, (s.tree ctx k).Follows geo l (ctx.treeAt k)
  linked : ∀ j < ctx.tablesNum, s.tablesMappedRegions j ≠ 0 → ∃ k, (s.tree ctx k).Has j

variable {l l' : Plan U64} {s s' : XlatState} {F : Nat → Prop} {f : Nat × Nat} {k endVa : Nat}

theorem XlatCtx.dvd_treeAt (ctx : XlatCtx) (k : Nat) : geo.size ctx.baseDepth ∣ ctx.treeAt k :=
  Nat.dvd_add (dvd_zero _) (dvd_mul_left _ _)

theorem RegionOk.mappable (h : RegionOk ctx mm) (hs : VaSpace ctx) : mm.Mappable := by
  have hle := hs.le
  have hva := h.va_le
  have hpa := h.pa_le
  have hpaMax := ctx.paMaxAddress_lt
  have hendVa := h.endVa
  have hendPa := h.endPa
  exact ⟨⟨h.size_pos, h.va_aligned, h.size_aligned, by omega⟩, h.pa_aligned, by omega⟩

/-- A region that passed the check lies under the base table. -/
theorem RegionOk.hi_le (h : RegionOk ctx mm) (hs : VaSpace ctx) :
    mm.range.hi ≤ ctx.treeAt ctx.baseTableEntries := by
  have hva := h.va_le
  have hend := h.endVa
  have htot := hs.total
  simp only [MmapRegion.range, Geometry.kidAt]
  omega

theorem TablesFollow.congr (h : TablesFollow ctx l s)
    (hcnt : ∀ d x, d ≤ ctx.baseDepth → geo.size d ∣ x → l'.count d x = l.count d x)
    (hleaf : ∀ d x a, d ≤ ctx.baseDepth → geo.size d ∣ x → l.leaf d x a → l'.leaf d x a) :
    TablesFollow ctx l' s where
  ok := h.ok
  zero := h.zero
  linked := h.linked
  follows k hk := (h.follows k hk).congr (ctx.dvd_treeAt k)
    (fun e y he hy _ _ => hcnt e y he hy) (fun e y a he hy _ _ => hleaf e y a he hy)

/-- Only the tables and the counts matter. -/
theorem TablesFollow.of_same (h : TablesFollow ctx l s) (hsame : s.SameTables s') :
    TablesFollow ctx l s' := by
  have htree : ∀ k, s'.tree ctx k = s.tree ctx k := fun k => hsame.kids_eq _ _ _ _
  refine ⟨h.ok.of_same hsame, fun j hj hj0 => ?_, fun k hk => ?_, fun j hj hne => ?_⟩
  · rw [hsame.counts] at hj0
    rw [hsame.tables]
    exact h.zero j hj hj0
  · rw [htree k]
    exact h.follows k hk
  · rw [hsame.counts] at hne
    obtain ⟨k, hk⟩ := h.linked j hj hne
    exact ⟨k, by rw [htree k]; exact hk⟩

/-- The walk for a region from the base table writes tables in `F` only. -/
abbrev RegionWrites (ctx : XlatCtx) (F : Nat → Prop) (s s' : XlatState) : Prop :=
  MapWrites ctx F s s' .base ctx.baseDepth ctx.baseTableEntries 0 ctx.baseTableEntries

/-- It maps all of the region. -/
abbrev RegionDone (ctx : XlatCtx) (mm : MmapRegion) (s s' : XlatState) (endVa : Nat) : Prop :=
  MapDone ctx mm s s' .base 0 ctx.baseDepth ctx.baseTableEntries 0 endVa

/-- It stops at the table or page `f`. -/
abbrev RegionStopped (ctx : XlatCtx) (mm : MmapRegion) (F : Nat → Prop) (f : Nat × Nat)
    (s s' : XlatState) (k endVa : Nat) : Prop :=
  MapStopped ctx mm F f s s' .base 0 ctx.baseDepth ctx.baseTableEntries 0 k endVa

theorem meets_tree (hpos : 0 < mm.size.toNat)
    (hhi : mm.range.hi ≤ ctx.treeAt ctx.baseTableEntries) :
    mm.range.Meets 0 (ctx.baseTableEntries * geo.size ctx.baseDepth) := by
  simp only [MmapRegion.range, Geometry.kidAt] at hhi
  refine ⟨?_, ?_⟩ <;> simp only [MmapRegion.range] <;> omega

/-- The two ways in which mapping a region can end. -/
theorem TablesFollow.mapRegion (hs : VaSpace ctx) (h : TablesFollow ctx l s)
    (hmm : mm.Mappable) (hhi : mm.range.hi ≤ ctx.treeAt ctx.baseTableEntries)
    (hr : MapReady mm l) (hmap : mapRegion ctx s mm = some (s', endVa)) :
    ∃ F, RegionWrites ctx F s s' ∧ ((endVa = mm.endVa.toNat ∧ RegionDone ctx mm s s' endVa) ∨
      (endVa ≠ mm.endVa.toNat ∧ ∃ f k, RegionStopped ctx mm F f s s' k endVa)) := by
  have hpos := hmm.size_pos
  have hend := hmm.toNat_endVa
  have hm := meets_tree hmm.size_pos hhi
  have hres := mapRegion_spec hmm hr hs.entries_pos hm h.ok h.zero h.follows
  rw [hmap] at hres
  obtain ⟨F, hw, hdone | ⟨f, k, hstop⟩⟩ := hres
  · refine ⟨F, hw, .inl ⟨?_, hdone⟩⟩
    have hmin := hdone.endVa
    rw [min_eq_left hhi] at hmin
    simp only [MmapRegion.range] at hmin
    omega
  · refine ⟨F, hw, .inr ⟨?_, f, k, hstop⟩⟩
    -- The walk stops at a page boundary, and the region ends below one.
    intro heq
    have hpage : pageSize ∣ endVa := by
      rw [hstop.endVa]
      exact (pageSize_dvd_size f.1).trans (hstop.fails.dvd (ctx.dvd_treeAt k))
    have hnext : pageSize ∣ endVa + 1 := by
      rw [heq, hend, Nat.sub_add_cancel (by omega)]
      exact hmm.hi_aligned
    exact absurd ((Nat.dvd_add_right hpage).mp hnext) (by decide)

theorem TablesFollow.linked_of_has (h : TablesFollow ctx l s) (hw : RegionWrites ctx F s s')
    (hhas : ∀ k j, (s.tree ctx k).Has j → (s'.tree ctx k).Has j) :
    ∀ j < ctx.tablesNum, s'.tablesMappedRegions j ≠ 0 → ∃ k, (s'.tree ctx k).Has j := by
  intro j hj hne
  by_cases hF : F j
  · obtain ⟨k, -, -, hk⟩ := hw.foot j hF
    exact ⟨k, hk⟩
  · rw [hw.touch.count_out j hF] at hne
    obtain ⟨k, hk⟩ := h.linked j hj hne
    exact ⟨k, hhas k j hk⟩

/-- **A region that is mapped** is a user of the tables from then on. -/
theorem TablesFollow.mapDone (h : TablesFollow ctx l s) (hl : l.Ok geo)
    (hg : ∀ a b, Plan.GrowsOn geo (mm.paint ctx) l l' a b)
    (hw : RegionWrites ctx F s s') (hdone : RegionDone ctx mm s s' endVa) :
    TablesFollow ctx l' s' := by
  refine ⟨hw.ok, hw.freeZero h.zero, fun k hk => ?_, h.linked_of_has hw fun k j hj => ?_⟩
  · by_cases hm : mm.range.Meets (ctx.treeAt k) (geo.size ctx.baseDepth)
    · exact (hdone.maps k (Nat.zero_le k) hk hm).follows hl (hg _ _) (ctx.dvd_treeAt k) hm
        (h.follows k hk)
    · rw [tree, hdone.same k fun hk' => hm hk'.2.2]
      exact (hg _ _).follows_apart (ctx.dvd_treeAt k) hm (h.follows k hk)
  · by_cases hm : k < ctx.baseTableEntries ∧ mm.range.Meets (ctx.treeAt k) (geo.size ctx.baseDepth)
    · exact (hdone.maps k (Nat.zero_le k) hm.1 hm.2).has hj
    · rw [tree, hdone.same k fun hk => hm hk.2]
      exact hj

/-- **A region that is mapped in part** is a user of the tables that the walk went
through. -/
theorem TablesFollow.mapStopped (h : TablesFollow ctx l s) (hl : l.Ok geo)
    (hw : RegionWrites ctx F s s') (hstop : RegionStopped ctx mm F f s s' k endVa) :
    TablesFollow ctx (l.stall geo (mm.paint ctx) f) s' := by
  have hwit := hstop.fails.within
  have hlt := hstop.fails.lt_end
  refine ⟨hw.ok, hw.freeZero h.zero, fun k' hk' => ?_, h.linked_of_has hw fun k' j hj => ?_⟩
  · rcases lt_trichotomy k' k with hkk | rfl | hkk
    · -- Entries before the stop are mapped.
      have hbel : ctx.treeAt k' + geo.size ctx.baseDepth ≤ f.2 := by
        rw [XlatCtx.treeAt, geo.kidAt_add_size]
        exact (geo.kidAt_mono 0 ctx.baseDepth hkk).trans hwit.1
      have hgr := Plan.growsOn_stall (g := geo) (l := l) (a := ctx.treeAt k') hbel
        (le_of_lt (hstop.fails.meets_stop hstop.meets).1)
      by_cases hm : mm.range.Meets (ctx.treeAt k') (geo.size ctx.baseDepth)
      · exact (hstop.maps k' (Nat.zero_le k') hkk hm).follows hl hgr (ctx.dvd_treeAt k') hm
          (h.follows k' hk')
      · rw [tree, hstop.same k' fun hk => hm hk.2.2]
        exact hgr.follows_apart (ctx.dvd_treeAt k') hm (h.follows k' hk')
    · exact hstop.fails.follows hl (ctx.dvd_treeAt k') (h.follows k' hk')
    · -- Entries after the stop are as they were.
      rw [tree, hstop.same k' fun hk => by omega]
      refine (h.follows k' hk').stall_apart (ctx.dvd_treeAt k') ?_
      have hmono := geo.kidAt_mono 0 ctx.baseDepth hkk
      rw [← geo.kidAt_add_size] at hmono
      exact hlt.trans_le hmono
  · by_cases hm : k' ≤ k ∧ mm.range.Meets (ctx.treeAt k') (geo.size ctx.baseDepth)
    · rcases lt_or_eq_of_le hm.1 with hkk | rfl
      · exact (hstop.maps k' (Nat.zero_le k') hkk hm.2).has hj
      · exact hstop.fails.has hj
    · rw [tree, hstop.same k' fun hk => hm hk.2]
      exact hj

/-- **A region that is unmapped** is no user of the tables from then on. -/
theorem TablesFollow.unmapRegion (hs : VaSpace ctx) (h : TablesFollow ctx l s)
    (hmm : mm.Walkable) (hhi : mm.range.hi ≤ ctx.treeAt ctx.baseTableEntries)
    (hr : UnmapReady mm l l') (hl : l'.Ok geo) :
    ∃ s', unmapRegion ctx s mm = some s' ∧ TablesFollow ctx l' s' ∧
      UnmapDone ctx mm l' s s' .base 0 ctx.baseDepth ctx.baseTableEntries 0
        ctx.baseTableEntries := by
  have hm := meets_tree hmm.size_pos hhi
  obtain ⟨s', hunm, hdone⟩ := unmapRegion_spec hmm hr hs.entries_pos hm h.ok h.follows
  refine ⟨s', hunm, ⟨hdone.ok, hdone.zero hl h.zero, hdone.follows hr (dvd_zero _) h.follows,
    fun j hj hne => ?_⟩, hdone⟩
  have hhas : ∃ k, (s.tree ctx k).Has j := by
    by_cases hv : UnmapVisits ctx mm s .base 0 ctx.baseDepth ctx.baseTableEntries 0
        ctx.baseTableEntries j
    · obtain ⟨k, -, -, hk⟩ := hv
      exact ⟨k, hk.has⟩
    · rw [hdone.touch.count_out j hv] at hne
      exact h.linked j hj hne
  obtain ⟨k, hk⟩ := hhas
  have hlt := lt_of_has hk
  refine ⟨k, ?_⟩
  rw [tree, hdone.kids k]
  by_cases hm : mm.range.Meets (ctx.treeAt k) (geo.size ctx.baseDepth)
  · rw [if_pos ⟨Nat.zero_le k, hlt, hm⟩]
    have hcnt : (s.tree ctx k).HasCount geo j (s.tablesMappedRegions j) := by
      rw [tree, kids_of_lt hlt] at hk ⊢
      exact hasCount hk
    rcases (h.follows k hlt).has_unmap hr.shrinks hl (ctx.dvd_treeAt k) hm hcnt with
      hstay | ⟨hv, hone⟩
    · exact hstay
    · -- A table that goes away has no region left.
      have hlast := hdone.touch.count_in j ⟨k, Nat.zero_le k, hlt, hv⟩
      rw [hone] at hlast
      exact absurd hlast hne
  · rw [if_neg fun hk => hm hk.2.2]
    exact hk

end TrustedFirmware.Xlat
