import TrustedFirmware.Xlat.Tree

/-!
# Where a walk goes, and what it does there

Both walks over a table start at the first entry that the region meets (`exists_start`);
what they do at an entry is decided by the part of the entry that the region covers and
by what is there, which is spelled out here for the entries of the tree (`mapAction_*`,
`unmapAction_*`).
-/

namespace TrustedFirmware.Xlat

open Lib Lib.Radix MmapRegion

/-! ### Regions -/

/-- A region that can be walked: at least one page, whole pages, and addresses of 48
bits. -/
structure MmapRegion.Walkable (mm : MmapRegion) : Prop where
  size_pos : 0 < mm.size.toNat
  va_aligned : pageSize ∣ mm.baseVa.toNat
  size_aligned : pageSize ∣ mm.size.toNat
  va_le : mm.baseVa.toNat + mm.size.toNat ≤ 2 ^ 48

/-- A region that can be mapped: its physical pages are pages too. -/
structure MmapRegion.Mappable (mm : MmapRegion) : Prop extends mm.Walkable where
  pa_aligned : pageSize ∣ mm.basePa.toNat
  pa_le : mm.basePa.toNat + mm.size.toNat ≤ 2 ^ 48

/-- What mapping a region paints, and where in one block: the conditions under which
`xlat_tables_map_region_action` writes a block descriptor for a covered entry. -/
def MmapRegion.paint (ctx : XlatCtx) (mm : MmapRegion) : Paint U64 where
  toRange := mm.range
  fits d x := d = 0 ∨ (geo.size d ∣ (mm.paAt x).toNat ∧ d < 3 ∧ geo.size d ≤ mm.granularity.toNat)
  value d x := xlatDesc ctx.regime mm.attr (mm.paAt x) (3 - d)

variable {mm : MmapRegion}

theorem MmapRegion.Walkable.toNat_endVa (h : mm.Walkable) :
    mm.endVa.toNat = mm.baseVa.toNat + mm.size.toNat - 1 := by
  have hpos := h.size_pos
  have hle := h.va_le
  unfold endVa
  bv_omega

theorem MmapRegion.Walkable.hi_aligned (h : mm.Walkable) : pageSize ∣ mm.range.hi :=
  Nat.dvd_add h.va_aligned h.size_aligned

/-- Both walks end at the end of the region, although they compare its last address
with the start of the next entry: both are page boundaries. -/
theorem MmapRegion.Walkable.hi_le_of_endVa_le (h : mm.Walkable) {y : Nat} (hy : pageSize ∣ y)
    (hle : mm.endVa.toNat ≤ y) : mm.range.hi ≤ y := by
  rw [h.toNat_endVa] at hle
  by_contra hgt
  have hone : mm.range.hi = y + 1 := by
    simp only [range] at hgt ⊢
    omega
  have hdvd := h.hi_aligned
  rw [hone, Nat.dvd_add_right hy] at hdvd
  exact absurd hdvd (by decide)

theorem MmapRegion.Mappable.toNat_paAt (h : mm.Mappable) {va : Nat} (hlo : mm.range.lo ≤ va)
    (hhi : va < mm.range.hi) :
    (mm.paAt va).toNat = mm.basePa.toNat + (va - mm.baseVa.toNat) := by
  have hpa := h.pa_le
  simp only [range] at hlo hhi
  unfold paAt
  bv_omega

/-- Every page of a region is painted as a page. -/
theorem MmapRegion.Walkable.block_zero (h : mm.Walkable) (ctx : XlatCtx) {x : Nat}
    (hx : geo.size 0 ∣ x) (hm : mm.range.Meets x (geo.size 0)) :
    (mm.paint ctx).Block geo 0 x := by
  have hlo : pageSize ∣ mm.range.lo := h.va_aligned
  have hhi := h.hi_aligned
  have hsize : geo.size 0 = pageSize := rfl
  refine ⟨⟨?_, ?_⟩, by simp [paint]⟩
  · show mm.range.lo ≤ x
    by_contra hlt
    have := Nat.le_of_dvd (by omega) (Nat.dvd_sub hlo hx)
    have := hm.2
    omega
  · show x + geo.size 0 ≤ mm.range.hi
    have := Nat.le_of_dvd (by have := hm.1; omega) (Nat.dvd_sub hhi hx)
    have := hm.1
    omega

/-! ### The first entry -/

/-- A walk over a table starts at the first entry that the region meets. -/
theorem exists_start {mm : MmapRegion} (hmm : mm.Walkable) {b d n : Nat} (hd : d ≤ 3)
    (hn : 0 < n) (hb : geo.size d ∣ b) (hm : mm.range.Meets b (n * geo.size d)) :
    ∃ i < n, xlatTablesFindStartVa mm b (3 - d) = geo.kidAt b d i ∧
      xlatTablesVaToIndex b (geo.kidAt b d i) (3 - d) = i ∧
      (∀ k < i, ¬ mm.range.Meets (geo.kidAt b d k) (geo.size d)) ∧
      mm.range.Meets (geo.kidAt b d i) (geo.size d) := by
  have hshf : 2 ^ xlatAddrShift (3 - d) = geo.size d := xlatBlockSize_eq hd
  have hpos := geo.size_pos d
  have hidx : ∀ i, xlatTablesVaToIndex b (geo.kidAt b d i) (3 - d) = i := by
    intro i
    rw [xlatTablesVaToIndex, Nat.shiftRight_eq_div_pow, hshf, Geometry.kidAt,
      Nat.add_sub_cancel_left, Nat.mul_div_cancel _ hpos]
  have hsize := hmm.size_pos
  obtain ⟨hlt, hgt⟩ := hm
  by_cases hlo : mm.baseVa.toNat > b
  · obtain ⟨q, rfl⟩ := hb
    set S := geo.size d with hS
    have hq : q ≤ mm.baseVa.toNat / S := by
      rw [Nat.le_div_iff_mul_le hpos, mul_comm]
      omega
    have hstt : geo.kidAt (S * q) d (mm.baseVa.toNat / S - q) = mm.baseVa.toNat / S * S := by
      rw [Geometry.kidAt, ← hS, Nat.sub_mul, mul_comm S q]
      exact Nat.add_sub_cancel' (Nat.mul_le_mul_right _ hq)
    have hfloor : mm.baseVa.toNat / S * S ≤ mm.baseVa.toNat := Nat.div_mul_le_self _ _
    have hceil : mm.baseVa.toNat < mm.baseVa.toNat / S * S + S := by
      exact Nat.lt_div_mul_add hpos
    refine ⟨mm.baseVa.toNat / S - q, ?_, ?_, hidx _, fun k hk hm => ?_, ?_⟩
    · have hdiv : mm.baseVa.toNat / S < q + n := by
        rw [Nat.div_lt_iff_lt_mul hpos, add_mul, mul_comm q]
        exact hgt
      omega
    · rw [hstt, xlatTablesFindStartVa, if_pos hlo]
      have hle := xlatAddrShift_le (3 - d)
      rw [xlatBlockMask, xlatBlockSize, toNat_and_not_lowMask (by omega), hshf]
    · have hmono := geo.kidAt_mono (S * q) d hk
      rw [hstt, ← geo.kidAt_add_size] at hmono
      have := hm.2
      simp only [range] at this
      omega
    · exact ⟨by simp only [range]; omega, by simp only [range]; omega⟩
  · have hzero : geo.kidAt b d 0 = b := by simp [Geometry.kidAt]
    refine ⟨0, hn, ?_, hidx 0, fun k hk => absurd hk (Nat.not_lt_zero k), ?_⟩
    · rw [hzero, xlatTablesFindStartVa, if_neg hlo]
    · rw [hzero]
      exact ⟨hlt, by simp only [range]; omega⟩

/-! ### Actions -/

/-- The type bits of a descriptor that maps memory, in an entry of depth `d`. -/
def leafType (d : Nat) : U64 := if d = 0 then pageDesc else blockDesc

theorem xlatDesc_leafType {regime : XlatRegime} {attr : U32} {pa desc : U64} {d : Nat}
    (h : xlatDesc regime attr pa (3 - d) = some desc) : desc &&& descMask = leafType d := by
  rw [xlatDesc_and_descMask h, leafType]
  by_cases h0 : d = 0
  · rw [if_pos h0, if_pos (by subst h0; rfl)]
  · rw [if_neg h0, if_neg (by simp only [xlatTableLevelMax]; omega)]

variable {d x : Nat}

/-- The test for a covered entry, in both actions. -/
theorem MmapRegion.Walkable.covers_iff (h : mm.Walkable) (hd : d ≤ 3) :
    (mm.baseVa.toNat ≤ x ∧ mm.endVa.toNat ≥ x + xlatBlockSize (3 - d) - 1) ↔
      mm.range.Covers x (geo.size d) := by
  have hpos := h.size_pos
  rw [h.toNat_endVa, xlatBlockSize_eq hd]
  simp only [Range.Covers, range]
  omega

/-- The test for a partially covered entry, in both actions. -/
theorem MmapRegion.overlaps_of_meets (hd : d ≤ 3) (hm : mm.range.Meets x (geo.size d)) :
    mm.baseVa.toNat ≤ x + xlatBlockSize (3 - d) - 1 ∨ mm.endVa.toNat ≥ x := by
  rw [xlatBlockSize_eq hd]
  have := hm.2
  simp only [range] at this
  omega

theorem sub_succ_ne_levelMax (d : Nat) : 3 - (d + 1) ≠ xlatTableLevelMax := by
  simp only [xlatTableLevelMax]
  omega

section

variable (h : mm.Walkable) (hd : d + 1 ≤ 3) (hm : mm.range.Meets x (geo.size (d + 1)))
include h hd hm

theorem mapAction_table (pa : U64) :
    xlatTablesMapRegionAction mm tableDesc pa x (3 - (d + 1)) = some .recurseIntoTable := by
  have hlvl := sub_succ_ne_levelMax d
  have hlt : 3 - (d + 1) < xlatTableLevelMax := by simp only [xlatTableLevelMax]; omega
  unfold xlatTablesMapRegionAction
  by_cases hc : mm.range.Covers x (geo.size (d + 1))
  · rw [if_pos ((h.covers_iff hd).mpr hc), if_neg hlvl, if_pos rfl]
  · rw [if_neg (mt (h.covers_iff hd).mp hc), if_pos (overlaps_of_meets hd hm),
      if_pos hlt, if_neg (by decide), if_pos rfl]

omit hd hm in
theorem mapAction_leaf (hd : d ≤ 3) (hc : mm.range.Covers x (geo.size d))
    (pa : U64) : xlatTablesMapRegionAction mm (leafType d) pa x (3 - d) = some .none := by
  unfold xlatTablesMapRegionAction
  rw [if_pos ((h.covers_iff hd).mpr hc)]
  cases d with
  | zero => rfl
  | succ d => rw [if_neg (sub_succ_ne_levelMax d)]; rfl

omit hd hm in
/-- An entry that holds nothing gets a block where one fits, and a table otherwise. -/
theorem mapAction_empty (ctx : XlatCtx) (hd : d ≤ 3) (hx : geo.size d ∣ x)
    (hm : mm.range.Meets x (geo.size d)) :
    xlatTablesMapRegionAction mm invalidDesc (mm.paAt x) x (3 - d) =
      some (if (mm.paint ctx).Block geo d x then .writeBlockEntry else .createNewTable) := by
  unfold xlatTablesMapRegionAction
  cases d with
  | zero =>
    have hb := h.block_zero ctx hx hm
    have hc : mm.range.Covers x (geo.size 0) := hb.1
    rw [if_pos ((h.covers_iff hd).mpr hc), if_pos hb]
    rfl
  | succ d =>
    have hlt : 3 - (d + 1) < xlatTableLevelMax := by simp only [xlatTableLevelMax]; omega
    by_cases hc : mm.range.Covers x (geo.size (d + 1))
    · rw [if_pos ((h.covers_iff hd).mpr hc), if_neg (sub_succ_ne_levelMax d),
        if_neg (by decide), if_pos rfl]
      have hfits : (mm.paint ctx).Block geo (d + 1) x ↔
          ¬ (mm.paAt x &&& xlatBlockMask (3 - (d + 1)) ≠ 0 ∨ 3 - (d + 1) < minLvlBlockDesc ∨
            mm.granularity.toNat < xlatBlockSize (3 - (d + 1))) := by
        simp only [Paint.Block, hc, paint, and_xlatBlockMask_eq_zero,
          xlatBlockSize_eq hd, minLvlBlockDesc, Nat.succ_ne_zero, false_or, true_and,
          decide_eq_true_eq, not_or, not_not, ne_eq, not_lt]
        omega
      by_cases hb : (mm.paint ctx).Block geo (d + 1) x
      · rw [if_neg (hfits.mp hb), if_pos hb]
      · rw [if_pos (not_not.mp (mt hfits.mpr hb)), if_neg hb]
    · rw [if_neg (mt (h.covers_iff hd).mp hc), if_pos (overlaps_of_meets hd hm),
        if_pos hlt, if_pos rfl, if_neg fun hb => hc hb.1]

theorem unmapAction_table :
    xlatTablesUnmapRegionAction mm x (x + xlatBlockSize (3 - (d + 1)) - 1) (3 - (d + 1))
      tableDesc = some .recurseIntoTable := by
  have hlt : 3 - (d + 1) < xlatTableLevelMax := by simp only [xlatTableLevelMax]; omega
  unfold xlatTablesUnmapRegionAction
  by_cases hc : mm.range.Covers x (geo.size (d + 1))
  · rw [if_pos ((h.covers_iff hd).mpr hc), if_neg (sub_succ_ne_levelMax d), if_pos rfl]
  · rw [if_neg (mt (h.covers_iff hd).mp hc), if_pos (overlaps_of_meets hd hm), if_pos ⟨hlt, rfl⟩]

end

theorem unmapAction_leaf (h : mm.Walkable) (hd : d ≤ 3) (hc : mm.range.Covers x (geo.size d)) :
    xlatTablesUnmapRegionAction mm x (x + xlatBlockSize (3 - d) - 1) (3 - d) (leafType d) =
      some .writeBlockEntry := by
  unfold xlatTablesUnmapRegionAction
  rw [if_pos ((h.covers_iff hd).mpr hc)]
  cases d with
  | zero => rfl
  | succ d => rw [if_neg (sub_succ_ne_levelMax d)]; rfl

end TrustedFirmware.Xlat
