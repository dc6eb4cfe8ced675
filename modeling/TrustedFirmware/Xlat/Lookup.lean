import TrustedFirmware.Xlat.ChangeAttrs

/-!
# `find_xlat_table_entry` and the walk of the MMU

Inside the address space the two end at the same descriptor, which is the one of the innermost
region around the address. The function does not compare the address with `va_max_address`: above
it, the descriptor of the alias is returned (`alias_found`), and the functions that read and change
attributes take the address for mapped.
-/

namespace TrustedFirmware.Xlat

open Lib Lib.Radix Option BitVec

/-- The address is mapped: a region contains it. -/
def IsMapped (s : XlatState) (va : U64) : Prop := ∃ mm ∈ s.live, mm.Contains va

/-- An entry is found for an address of the address space that is mapped and for no other; it is
where the walk ends, and holds what the mapping functions write for the innermost region. -/
def LookupAgrees (ctx : XlatCtx) (s : XlatState) (va : U64) : Prop :=
  ∃ r, findXlatTableEntry ctx s va = some r ∧
    (r.isSome = true ↔ va ≤ ctx.vaMaxAddress ∧ IsMapped s va) ∧
    ∀ entry ∈ r, tableWalk ctx s va = some (.leaf entry.level (s.descAt entry)) ∧
      ∃ mm ∈ s.live, mm.Contains va ∧ (∀ mm' ∈ s.live, mm'.Contains va → mm.size ≤ mm'.size) ∧
        ∃ attr pa, xlatDesc ctx.regime attr pa entry.level = some (s.descAt entry) ∧
          outputAddress entry.level (s.descAt entry) va =
            mm.basePa.toNat + (va.toNat - mm.baseVa.toNat)

/-- An address that is not mapped inside the address space has no attributes. -/
def GetRefuses (ctx : XlatCtx) (s : XlatState) (va : U64) : Prop :=
  ¬ (va ≤ ctx.vaMaxAddress ∧ IsMapped s va) →
    xlatGetMemAttributesCtx ctx s va = some (.error (-eInval))

/-- The address is in the address space, or its alias is not mapped. -/
def NoAlias (ctx : XlatCtx) (s : XlatState) (va : U64) : Prop :=
  va ≤ ctx.vaMaxAddress ∨ ¬ IsMapped s (ctx.aliasOf va)

variable {ctx : XlatCtx} {ls : List (Nat × Nat)} {s s' : XlatState} {va va' baseVa size : U64}
  {attr : U32} {n : Nat}

theorem MmapOk.isMapped_congr (h : MmapOk ctx s)
    (hpage : va.toNat / pageSize = va'.toNat / pageSize) :
    IsMapped s va ↔ IsMapped s va' := by
  refine exists_congr fun mm => and_congr_right fun hmm => ?_
  have hok := h.valid mm hmm
  obtain ⟨b, hb⟩ := hok.va_aligned
  obtain ⟨t, ht⟩ := hok.size_aligned
  rw [hok.contains_iff, hok.contains_iff]
  simp only [MmapRegion.range, hb, ht, pageSize] at hpage ⊢
  omega

theorem MmapOk.le_of_isMapped (h : MmapOk ctx s) (hva : IsMapped s va) : va ≤ ctx.vaMaxAddress := by
  obtain ⟨mm, hmm, hcon⟩ := hva
  exact le_def.mpr ((le_def.mp hcon.2).trans (h.valid mm hmm).va_le)

/-- An address of the address space is in the page of its alias. -/
theorem MmapOk.isMapped_aliasOf (h : MmapOk ctx s) (hs : VaSpace ctx)
    (hva : va ≤ ctx.vaMaxAddress) :
    IsMapped s (ctx.aliasOf va) ↔ IsMapped s va := by
  refine h.isMapped_congr ?_
  rw [ctx.toNat_aliasOf, hs.pageOf_eq hva, Nat.mul_div_cancel _ (by decide)]

section

variable (h : TablesMap ctx ls s) (hs : VaSpace ctx) (hok : MmapOk ctx s)
include h hs hok

/-- No region has an address in a block whose descriptor is not valid; any other descriptor is the
one of a region that contains the block. -/
theorem TablesFollow.walkEnd_invalid_iff (hva : va ≤ ctx.vaMaxAddress) :
    s.descAt (s.walkEnd ctx va) = invalidDesc ↔ ¬ IsMapped s va := by
  obtain ⟨e, y, -, -, -, hle, hlt, ⟨hinv, hcnt⟩ | hleaf⟩ := h.walkEnd hs hva
  · refine iff_of_true hinv ?_
    rintro ⟨mm, hmm, hcon⟩
    obtain ⟨hlo, hhi⟩ := (hok.valid mm hmm).contains_iff.mp hcon
    have hnone := List.countP_eq_zero.mp (Nat.add_eq_zero_iff.mp hcnt).1 mm hmm
    exact hnone (decide_eq_true ⟨hle.trans_lt hhi, hlo.trans_lt hlt⟩)
  · refine iff_of_false (ne_invalidDesc_of_leafType (regionPlan_type hleaf)) (not_not.mpr ?_)
    obtain ⟨-, -, -, mm, hmm, hcov, -⟩ := hleaf
    exact ⟨mm, hmm, (hok.valid mm hmm).contains_iff.mpr ⟨hcov.1.trans hle, hlt.trans_le hcov.2⟩⟩

/-- **What is found** is the entry of the alias, if there is one. -/
theorem findXlatTableEntry_isSome_iff (va : U64) :
    ∃ r, findXlatTableEntry ctx s va = some r ∧
      (r.isSome = true ↔ IsMapped s (ctx.aliasOf va)) ∧ ∀ entry ∈ r, entry = s.walkEnd ctx va := by
  by_cases hidx : xlatTableIdx va (3 - ctx.baseDepth) < ctx.baseTableEntries
  · refine ⟨_, findXlatTableEntry_eq hs h hidx, ?_⟩
    have hiff := h.walkEnd_invalid_iff hs hok (hs.aliasOf_le hidx)
    rw [XlatState.walkEnd_aliasOf] at hiff
    by_cases hinv : s.descAt (s.walkEnd ctx va) = invalidDesc
    · simp [hinv, hiff.mp hinv]
    · simp [hinv, not_not.mp (mt hiff.mpr hinv)]
  · refine ⟨none, findXlatTableEntryFrom_of_ge ctx.baseDepth_le (not_lt.mp hidx), ?_, by simp⟩
    refine iff_of_false (by simp) fun hmap => hidx ?_
    have hlt := (hs.index (hok.le_of_isMapped hmap)).1
    rwa [xlatTableIdx_eq_pageOf ctx.baseDepth_le, ctx.pageOf_aliasOf,
      ← xlatTableIdx_eq_pageOf ctx.baseDepth_le] at hlt

/-- The descriptor at the end of a walk is the one of the innermost region. -/
theorem TablesFollow.walkEnd_innermost (hva : va ≤ ctx.vaMaxAddress) (hmap : IsMapped s va) :
    ∃ mm ∈ s.live, mm.Contains va ∧ (∀ mm' ∈ s.live, mm'.Contains va → mm.size ≤ mm'.size) ∧
      ∃ attr pa, xlatDesc ctx.regime attr pa (s.walkEnd ctx va).level =
          some (s.descAt (s.walkEnd ctx va)) ∧
        outputAddress (s.walkEnd ctx va).level (s.descAt (s.walkEnd ctx va)) va =
          mm.basePa.toNat + (va.toNat - mm.baseVa.toNat) := by
  obtain ⟨e, y, hlvl, he, hy, hle, hlt, ⟨hinv, -⟩ | hleaf⟩ := h.walkEnd hs hva
  · exact absurd hmap ((h.walkEnd_invalid_iff hs hok hva).mp hinv)
  obtain ⟨-, -, -, mm, hmm, hcov, ⟨attr, -, hdesc⟩, hinn⟩ := hleaf
  rw [hlvl]
  refine ⟨mm, hmm, (hok.valid mm hmm).contains_iff.mpr
    ⟨hcov.1.trans hle, hlt.trans_le hcov.2⟩, fun mm' hmm' hcon => ?_,
    attr, mm.paAt y, hdesc, (hok.valid mm hmm).outputAddress hs (he.trans ctx.baseDepth_le) hy hle
      hlt hcov hdesc⟩
  obtain ⟨hlo, hhi⟩ := (hok.valid mm' hmm').contains_iff.mp hcon
  rcases hinn mm' hmm' ⟨hle.trans_lt hhi, hlo.trans_lt hlt⟩ with
    rfl | ⟨hlo, hhi, -⟩
  · exact BitVec.le_refl _
  · rw [le_def]
    simp only [MmapRegion.range] at hlo hhi
    omega

theorem lookupAgrees_iff (hinit : s.initialized = true) :
    LookupAgrees ctx s va ∧ GetRefuses ctx s va ↔ NoAlias ctx s va := by
  obtain ⟨r, hfind, hsome, hen⟩ := findXlatTableEntry_isSome_iff h hs hok va
  constructor
  · rintro ⟨⟨r', hfind', hsome', -⟩, -⟩
    obtain rfl : r = r' := some.inj (hfind.symm.trans hfind')
    rw [hsome] at hsome'
    exact or_iff_not_imp_right.mpr fun hali => (hsome'.mp (not_not.mp hali)).1
  · intro hno
    have hsome' : r.isSome = true ↔ va ≤ ctx.vaMaxAddress ∧ IsMapped s va := by
      rw [hsome]
      constructor
      · intro hali
        have hva := hno.resolve_right (not_not.mpr hali)
        exact ⟨hva, (hok.isMapped_aliasOf hs hva).mp hali⟩
      · exact fun ⟨hva, hmap⟩ => (hok.isMapped_aliasOf hs hva).mpr hmap
    refine ⟨⟨r, hfind, hsome', fun entry hr => ?_⟩, fun hnot => ?_⟩
    · obtain rfl := hen entry hr
      obtain ⟨hva, hmap⟩ := hsome'.mp (isSome_of_mem hr)
      refine ⟨?_, h.walkEnd_innermost hs hok hva hmap⟩
      rw [tableWalk_eq hs h hva,
        if_neg (mt (h.walkEnd_invalid_iff hs hok hva).mp (not_not.mpr hmap))]
    · obtain rfl : r = none := not_isSome_iff_eq_none.mp (mt hsome'.mp hnot)
      simp [xlatGetMemAttributesCtx, xlatGetMemAttributesInternal, hinit, hfind, Except.map]

end

/-- The first loop ends at a page that it rejects. -/
theorem changeablePages_eq_false (hsome : ∀ va, (changeablePage ctx s va attr).isSome = true)
    (h : ∃ i < n, changeablePage ctx s (pageAt baseVa i) attr = some false) :
    changeablePages ctx s attr n baseVa = some false := by
  induction n generalizing baseVa with
  | zero => simp at h
  | succ n ih =>
    obtain ⟨i, hi, hpage⟩ := h
    obtain ⟨b, hb⟩ := isSome_iff_exists.mp (hsome baseVa)
    cases b with
    | false => simp [changeablePages, hb]
    | true =>
      simp only [changeablePages, hb]
      cases i with
      | zero => simp [pageAt_zero, hb] at hpage
      | succ i => exact ih ⟨i, Nat.lt_of_succ_lt_succ hi, pageAt_succ baseVa i ▸ hpage⟩

/-- The page of an address of a range. -/
theorem InRange.exists_pageAt (hbase : pageSize ∣ baseVa.toNat) (hsize : pageSize ∣ size.toNat)
    (h : InRange baseVa size va) :
    ∃ i < size.toNat / pageSize, va.toNat / pageSize = (pageAt baseVa i).toNat / pageSize := by
  obtain ⟨b, hb⟩ := hbase
  obtain ⟨t, ht⟩ := hsize
  unfold InRange at h
  refine ⟨(va - baseVa).toNat / pageSize, ?_, ?_⟩
  · rw [ht] at h ⊢
    simp only [pageSize] at h ⊢
    omega
  · rw [pageAt, toNat_add, toNat_ofNat, toNat_sub]
    simp only [pageSize] at hb ⊢
    omega

/-- A range that is not mapped is refused. -/
theorem change_refuses (h : TablesMap ctx ls s) (hs : VaSpace ctx) (hok : MmapOk ctx s)
    (hinit : s.initialized = true)
    (hno : ∀ i < size.toNat / pageSize, NoAlias ctx s (pageAt baseVa i))
    (hva : InRange baseVa size va) (hnot : ¬ (va ≤ ctx.vaMaxAddress ∧ IsMapped s va)) :
    xlatChangeMemAttributesCtx ctx s baseVa size attr = some (s, -eInval) := by
  unfold xlatChangeMemAttributesCtx
  split_ifs with hal hzero hmod hwx
  · rfl
  · rfl
  · rfl
  swap
  · rfl
  have hchk : changeablePages ctx s attr (size.toNat / pageSize) baseVa = some false := by
    refine changeablePages_eq_false (fun v => ?_) ?_
    · obtain ⟨r, hfind, -⟩ := findXlatTableEntry_isSome_iff h hs hok v
      simp [changeablePage, hfind]
    · obtain ⟨i, hi, hpage⟩ := hva.exists_pageAt ((isPageAligned_iff baseVa).mp hal)
        (Nat.dvd_of_mod_eq_zero (not_not.mp hmod))
      obtain ⟨r, hfind, hsome, -⟩ := findXlatTableEntry_isSome_iff h hs hok (pageAt baseVa i)
      have hunm : ¬ IsMapped s (ctx.aliasOf (pageAt baseVa i)) := by
        intro hali
        have hle := (hno i hi).resolve_right (not_not.mpr hali)
        have hmap := (hok.isMapped_congr hpage).mpr ((hok.isMapped_aliasOf hs hle).mp hali)
        exact hnot ⟨hok.le_of_isMapped hmap, hmap⟩
      obtain rfl : r = none := not_isSome_iff_eq_none.mp (mt hsome.mp hunm)
      exact ⟨i, hi, by simp [changeablePage, hfind]⟩
  simp [hchk]

/-- **The lookup and the walk**, in every state that is reached without stranding tables. The
lookup agrees with the walk for the addresses whose alias is not taken for them; of a range of
such pages, the call that changes attributes refuses what is not mapped. -/
theorem lookup_agrees_iff {ops : List XlatOp} (hreg : s.Registered ctx)
    (hstrand : Along (XlatState.step ctx) (fun s op => ¬ StrandsTables ctx s op) s ops)
    (hrun : run (XlatState.step ctx) s ops = some s') (hinit : s'.initialized = true) :
    (∀ va, LookupAgrees ctx s' va ∧ GetRefuses ctx s' va ↔ NoAlias ctx s' va) ∧
    ∀ baseVa size attr, (∀ i < size.toNat / pageSize, NoAlias ctx s' (pageAt baseVa i)) →
      (∃ va, InRange baseVa size va ∧ ¬ (va ≤ ctx.vaMaxAddress ∧ IsMapped s' va)) →
      xlatChangeMemAttributesCtx ctx s' baseVa size attr = some (s', -eInval) := by
  have hinv : XlatInv ctx (fun _ _ => True) s' := hreg.xlatInv.run hstrand hrun
  obtain ⟨hs, ls, hmap⟩ := hinv.tables hinit
  refine ⟨fun va => lookupAgrees_iff hmap hs hinv.mmap hinit, ?_⟩
  rintro baseVa size attr hno ⟨va, hva, hnot⟩
  exact change_refuses hmap hs hinv.mmap hinit hno hva hnot

/-- The page at `0x1000` is found. -/
theorem lookup_agrees_iff_page :
    ∃ s', run (XlatState.step (sampleCtx 0xFFFFFFFF 4)) (.blank (sampleCtx 0xFFFFFFFF 4))
        onePage = some s' ∧ LookupAgrees (sampleCtx 0xFFFFFFFF 4) s' 0x1234 := by
  refine exists_some_imp (q := fun s' => s'.initialized = true) (by decide +kernel)
    fun s' hrun hinit => ?_
  exact (((lookup_agrees_iff (XlatState.blank_registered _) (by decide +kernel) hrun hinit).1
    0x1234).mpr (.inl (by decide))).1

/-- An address far above the 4 GiB of the address space: the entry of the page at `0x1000` is
returned for it, and so are the attributes of that page. -/
theorem alias_found :
    ∃ s', run (XlatState.step (sampleCtx 0xFFFFFFFF 4)) (.blank (sampleCtx 0xFFFFFFFF 4))
        onePage = some s' ∧ ¬ LookupAgrees (sampleCtx 0xFFFFFFFF 4) s' 0x8000001000 ∧
      ¬ GetRefuses (sampleCtx 0xFFFFFFFF 4) s' 0x8000001000 := by
  refine exists_some_imp (q := fun s' =>
    (∃ r, findXlatTableEntry (sampleCtx 0xFFFFFFFF 4) s' 0x8000001000 = some r ∧ r.isSome = true) ∧
    xlatGetMemAttributesCtx (sampleCtx 0xFFFFFFFF 4) s' 0x8000001000 ≠ some (.error (-eInval)))
    (by decide +kernel) fun s' _ ⟨⟨r, hfind, hsome⟩, hget⟩ => ⟨fun h => ?_, fun h => hget (h ?_)⟩
  · obtain ⟨r', hfind', hiff, -⟩ := h
    obtain rfl : r = r' := some.inj (hfind.symm.trans hfind')
    exact absurd (hiff.mp hsome).1 (by decide)
  · exact fun hmap => absurd hmap.1 (by decide)

end TrustedFirmware.Xlat
