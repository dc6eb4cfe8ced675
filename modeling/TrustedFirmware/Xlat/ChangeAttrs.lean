import TrustedFirmware.Xlat.Decode
import TrustedFirmware.Xlat.SetPage

/-!
# Changing the attributes of mapped pages

`xlat_change_mem_attributes_ctx` rewrites the descriptors of a range of pages and
nothing else (`changePages_spec`), so that the tables still follow the regions, now with
other attributes for some pages.

The descriptors are found by the indices of an address, and no function checks the
address against the address space: a page above it is taken for the page with the
same indices. The call does what it should exactly when such aliases are in the range
too, or have the attributes already (`change_attributes_as_asked`).
-/

namespace TrustedFirmware.Xlat

open Lib Lib.Radix Option XlatState Nat

/-! ### Finding a descriptor -/

variable {ctx : XlatCtx} {s : XlatState} {va : U64} {d n j : Nat} {ref : TableRef}

theorem ne_invalidDesc_of_leafType {desc : U64} {e : Nat}
    (h : desc &&& descMask = leafType e) : desc ≠ invalidDesc := by
  intro h0
  rw [h0, leafType] at h
  split at h <;> cases h

theorem findXlatTableEntryFrom_of_ge (hd : d ≤ 3) (hge : n ≤ xlatTableIdx va (3 - d)) :
    findXlatTableEntryFrom ctx s va d ref n = some none := by
  cases d with
  | zero => rw [findXlatTableEntryFrom, if_pos hge]
  | succ d =>
    rw [show 3 - (d + 1) = 2 - d by omega] at hge
    rw [findXlatTableEntryFrom, if_pos hge]

theorem findXlatTableEntryFrom_table (hlt : xlatTableIdx va (2 - d) < n)
    (hj : ctx.tableOf (s.read ref (xlatTableIdx va (2 - d))) = some j) :
    findXlatTableEntryFrom ctx s va (d + 1) ref n =
      findXlatTableEntryFrom ctx s va d (.sub j) xlatTableEntries := by
  obtain ⟨hjlt, hdesc⟩ := XlatCtx.tableOf_eq_some hj
  rw [findXlatTableEntryFrom, if_neg (not_le.mpr hlt), hdesc]
  dsimp only
  rw [XlatCtx.tableDescOf_and_descMask hjlt, if_neg (by decide), if_neg (by decide), if_pos rfl,
    xlatTableGetIndex_tableDescOf hjlt]

/-- The search ends where the walk does. -/
theorem findXlatTableEntryFrom_eq (hd : d ≤ 3) (hlt : xlatTableIdx va (3 - d) < n)
    (hdesc : s.descAt (s.entryFor ctx va d ref) = invalidDesc ∨
      ∃ e, (s.entryFor ctx va d ref).level = 3 - e ∧ e ≤ 3 ∧
        s.descAt (s.entryFor ctx va d ref) &&& descMask = leafType e) :
    findXlatTableEntryFrom ctx s va d ref n =
      some (if s.descAt (s.entryFor ctx va d ref) = invalidDesc then none
        else some (s.entryFor ctx va d ref)) := by
  induction d generalizing ref n with
  | zero =>
    rw [findXlatTableEntryFrom, if_neg (not_le.mpr hlt)]
    rcases hdesc with hinv | ⟨e, hlev, he, htype⟩
    · have hread : s.read ref (xlatTableIdx va 3) = invalidDesc := hinv
      rw [if_pos hinv, hread]
      rfl
    · obtain rfl : e = 0 := by
        have h3 : 3 = 3 - e := hlev
        omega
      have hmask : s.read ref (xlatTableIdx va 3) &&& descMask = pageDesc := htype
      rw [hmask, if_neg (by decide), if_pos rfl, if_neg (ne_invalidDesc_of_leafType htype)]
      rfl
  | succ d ih =>
    have hlvl : 3 - (d + 1) = 2 - d := by omega
    rw [hlvl] at hlt
    cases hj : ctx.tableOf (s.read ref (xlatTableIdx va (2 - d))) with
    | some =>
      rw [findXlatTableEntryFrom_table hlt hj]
      simp only [entryFor, hj] at hdesc ⊢
      exact ih (by omega) (xlatTableIdx_lt va _) hdesc
    | none =>
      rw [findXlatTableEntryFrom, if_neg (not_le.mpr hlt)]
      simp only [entryFor, hj] at hdesc ⊢
      rcases hdesc with hinv | ⟨e, hlev, he, htype⟩
      · have hread : s.read ref (xlatTableIdx va (2 - d)) = invalidDesc := hinv
        rw [if_pos hinv, hread]
        rfl
      · obtain rfl : e = d + 1 := by omega
        have hmask : s.read ref (xlatTableIdx va (2 - d)) &&& descMask = blockDesc := htype
        rw [hmask, if_neg (by decide), if_pos rfl, if_neg (ne_invalidDesc_of_leafType htype)]

/-! ### The descriptors of the tables -/

/-- A descriptor that `xlat_desc` makes for a level: an address with flags. -/
structure IsLeafDesc (regime : XlatRegime) (e : Nat) (desc pa : U64) (k : DescKind) : Prop where
  address : IsAddress pa
  regime : k.regime = regime
  page : k.page = decide (e = 0)
  eq : desc = pa ||| descFlags k

/-- The tables hold what the regions ask for, with any attributes. -/
abbrev TablesMap (ctx : XlatCtx) (ls : List (Nat × Nat)) (s : XlatState) : Prop :=
  TablesFollow ctx (regionPlan ctx.regime (fun _ _ => True) s.live ls) s

variable {allowed : MmapRegion → U32 → Prop} {rs : List MmapRegion} {ls : List (Nat × Nat)}
  {desc : U64} {e y : Nat}

theorem paAt_lt {r : MmapRegion} (hs : VaSpace ctx) (hr : RegionOk ctx r)
    (hcov : r.range.Covers y (geo.size e)) : (r.paAt y).toNat < 2 ^ 48 := by
  have hmap := hr.mappable hs
  have hpos := geo.size_pos e
  have hend := hcov.2
  have hlo := hcov.1
  have hle := hmap.pa_le
  rw [hmap.toNat_paAt hcov.1 (by omega)]
  simp only [MmapRegion.range] at hend hlo
  omega

/-- The descriptors of a plan are made by `xlat_desc`. -/
theorem regionPlan_isLeafDesc (hs : VaSpace ctx) (hrs : ∀ r ∈ rs, RegionOk ctx r)
    (hleaf : (regionPlan ctx.regime allowed rs ls).leaf e y desc) :
    ∃ pa k, IsLeafDesc ctx.regime e desc pa k := by
  obtain ⟨-, -, -, r, hr, hcov, ⟨attr, -, hdesc⟩, -⟩ := hleaf
  obtain ⟨hdvd, t, -, heq⟩ := xlatDesc_eq_some hdesc
  have hlt := paAt_lt hs (hrs r hr) hcov
  refine ⟨r.paAt y, _, ⟨(pageSize_dvd_xlatBlockSize _).trans hdvd, hlt⟩, rfl, ?_, heq⟩
  simp only [DescKind.ofAttr, xlatTableLevelMax]
  exact decide_eq_decide.mpr (by omega)

/-- A page descriptor of a plan may get other attributes. -/
theorem regionPlan_leaf_change {pa : U64} {k : DescKind} (hs : VaSpace ctx)
    (hrs : ∀ r ∈ rs, RegionOk ctx r)
    (hleaf : (regionPlan ctx.regime (fun _ _ => True) rs ls).leaf 0 y desc)
    (hdesc : IsLeafDesc ctx.regime 0 desc pa k) (attr : U32) :
    (regionPlan ctx.regime (fun _ _ => True) rs ls).leaf 0 y
      (pa ||| descFlags (k.change attr)) := by
  obtain ⟨hy, hd, hls, r, hr, hcov, ⟨attr', -, hattr'⟩, hinn⟩ := hleaf
  have hpa : r.paAt y = pa := by
    have hmask := hdesc.address.or_tableAddrMask k
    rw [← hdesc.eq, xlatDesc_and_tableAddrMask hattr' (paAt_lt hs (hrs r hr) hcov)] at hmask
    exact hmask
  refine ⟨hy, hd, hls, r, hr, hcov, ⟨changedAttr k.attributes attr, trivial, ?_⟩, hinn⟩
  rw [hpa, ← hdesc.regime]
  exact xlatDesc_change hdesc.address hdesc.page attr

/-! ### One page -/

/-- The page at `va` is mapped as a page, and may get the attributes. -/
structure Changeable (ctx : XlatCtx) (s : XlatState) (attr : U32) (va pa : U64) (k : DescKind) :
    Prop where
  index : xlatTableIdx va (3 - ctx.baseDepth) < ctx.baseTableEntries
  level : (s.walkEnd ctx va).level = 3
  desc : IsLeafDesc ctx.regime 0 (s.descAt (s.walkEnd ctx va)) pa k
  device : k.type = .device → attr &&& mtExecuteNever ≠ 0

variable {s' : XlatState} {va' pa : U64} {attr : U32} {k : DescKind}

section

variable (hs : VaSpace ctx) (h : TablesMap ctx ls s)
  (hidx : xlatTableIdx va (3 - ctx.baseDepth) < ctx.baseTableEntries)
include hs h hidx

omit h in
/-- What the tables hold for an address with an entry in the base table. -/
theorem TablesFollow.walkEnd_alias {l : Plan U64} (h : TablesFollow ctx l s) :
    ∃ e y, (s.walkEnd ctx va).level = 3 - e ∧ e ≤ 3 ∧ geo.size e ∣ y ∧
      y ≤ (ctx.aliasOf va).toNat ∧ (ctx.aliasOf va).toNat < y + geo.size e ∧
      (s.descAt (s.walkEnd ctx va) = invalidDesc ∨ l.leaf e y (s.descAt (s.walkEnd ctx va))) := by
  obtain ⟨e, y, hlvl, hed, hy, hle, hlt, hdesc⟩ := h.walkEnd hs (hs.aliasOf_le hidx)
  rw [walkEnd_aliasOf] at hlvl hdesc
  exact ⟨e, y, hlvl, hed.trans ctx.baseDepth_le, hy, hle, hlt, hdesc.imp_left And.left⟩

theorem findXlatTableEntry_eq :
    findXlatTableEntry ctx s va = some (if s.descAt (s.walkEnd ctx va) = invalidDesc then none
        else some (s.walkEnd ctx va)) := by
  obtain ⟨e, y, hlvl, he, -, -, -, hdesc⟩ := h.walkEnd_alias hs hidx
  refine findXlatTableEntryFrom_eq ctx.baseDepth_le hidx (hdesc.imp_right fun hleaf => ?_)
  exact ⟨e, hlvl, he, regionPlan_type hleaf⟩

omit hidx in
/-- A page that passes the checks of the first loop. -/
theorem changeable_of_changeablePage (hok : MmapOk ctx s)
    (hchk : changeablePage ctx s va attr = some true) :
    ∃ pa k, Changeable ctx s attr va pa k := by
  by_cases hidx : xlatTableIdx va (3 - ctx.baseDepth) < ctx.baseTableEntries
  · obtain ⟨e, y, hlvl, -, -, -, -, hdesc⟩ := h.walkEnd_alias hs hidx
    rw [changeablePage, findXlatTableEntry_eq hs h hidx] at hchk
    rcases hdesc with hinv | hleaf
    · rw [if_pos hinv] at hchk
      cases hchk
    · rw [if_neg (ne_invalidDesc_of_leafType (regionPlan_type hleaf))] at hchk
      obtain ⟨pa, k, hk⟩ := regionPlan_isLeafDesc hs hok.valid hleaf
      simp only [map_some, some.injEq] at hchk
      split_ifs at hchk with hbad hdev
      have hlevel3 : (s.walkEnd ctx va).level = 3 := by
        by_contra hne
        exact hbad (.inr hne)
      obtain rfl : e = 0 := by omega
      refine ⟨pa, k, hidx, hlevel3, hk, fun htype hxn => hdev ⟨?_, hxn⟩⟩
      have hde : attrIndexOf (descFlags k) = attrDeviceIndex := by
        have := isDevice_descFlags k
        rw [decide_eq_true htype] at this
        exact of_decide_eq_true this
      show attrIndexOf (s.descAt (s.walkEnd ctx va)) = attrDeviceIndex
      rw [hk.eq, hk.address.attrIndexOf]
      exact hde
  · rw [changeablePage, findXlatTableEntry,
      findXlatTableEntryFrom_of_ge ctx.baseDepth_le (not_lt.mp hidx)] at hchk
    cases hchk

end

theorem Changeable.ne_invalidDesc (hc : Changeable ctx s attr va pa k) :
    s.descAt (s.walkEnd ctx va) ≠ invalidDesc := by
  refine ne_invalidDesc_of_leafType (e := 0) ?_
  rw [hc.desc.eq, hc.desc.address.or_descMask, hc.desc.page]
  rfl

theorem Changeable.descAttributes (hc : Changeable ctx s attr va pa k) :
    descAttributes ctx.regime (s.descAt (s.walkEnd ctx va)) = some k.attributes := by
  rw [hc.desc.eq, hc.desc.address.descAttributes, ← hc.desc.regime, descAttributes_descFlags]

section

variable (hs : VaSpace ctx) (h : TablesMap ctx ls s) (hinit : s.initialized = true)
  (hc : Changeable ctx s attr va pa k)
include hs h hinit hc

theorem Changeable.memAttributes :
    xlatGetMemAttributesInternal ctx s va = some (.ok ⟨k.attributes, s.walkEnd ctx va, pa⟩) := by
  rw [xlatGetMemAttributesInternal, if_neg (by rw [hinit]; decide),
    findXlatTableEntry_eq hs h hc.index, if_neg hc.ne_invalidDesc]
  show (Xlat.descAttributes ctx.regime (s.descAt (s.walkEnd ctx va))).map _ = _
  have haddr : s.read (s.walkEnd ctx va).ref (s.walkEnd ctx va).idx &&& tableAddrMask = pa := by
    rw [← hc.desc.address.or_tableAddrMask k, ← hc.desc.eq]
    rfl
  rw [haddr, hc.descAttributes]
  rfl

theorem Changeable.changePage :
    changePage ctx s va attr = some (s.write (s.walkEnd ctx va).ref (s.walkEnd ctx va).idx
      (pa ||| descFlags (k.change attr))) := by
  have hreb := xlatDesc_change hc.desc.address hc.desc.page attr
  rw [hc.desc.regime] at hreb
  rw [Xlat.changePage, hc.memAttributes hs h hinit]
  dsimp only
  rw [hc.level, show (3 : Nat) = xlatTableLevelMax from rfl]
  rw [changedAttr] at hreb
  rw [hreb, map_some, write_write]

end

/-! ### A range of pages -/

/-- From `s` to `s'`, the descriptors of the given pages are rebuilt, and nothing else
changes. -/
structure PagesChanged (ctx : XlatCtx) (attr : U32) (ls : List (Nat × Nat)) (pages : Nat → Prop)
    (s s' : XlatState) : Prop where
  map : TablesMap ctx ls s'
  regions : s.SameRegions s'
  ends : ∀ va, xlatTableIdx va (3 - ctx.baseDepth) < ctx.baseTableEntries →
    s'.walkEnd ctx va = s.walkEnd ctx va
  inside : ∀ va, xlatTableIdx va (3 - ctx.baseDepth) < ctx.baseTableEntries →
    pages (pageOf ctx.baseDepth va) →
    rebuiltDesc ctx.regime attr (s.descAt (s.walkEnd ctx va)) = some (s'.descAt (s.walkEnd ctx va))
  outside : ∀ va, xlatTableIdx va (3 - ctx.baseDepth) < ctx.baseTableEntries →
    ¬ pages (pageOf ctx.baseDepth va) →
    s'.descAt (s.walkEnd ctx va) = s.descAt (s.walkEnd ctx va)

/-- Page `i` of the range that begins at `baseVa`. -/
def pageAt (baseVa : U64) (i : Nat) : U64 := baseVa + BitVec.ofNat 64 (i * pageSize)

/-- The first `n` pages of a range. -/
def RangePages (ctx : XlatCtx) (baseVa : U64) (n page : Nat) : Prop :=
  ∃ i < n, pageOf ctx.baseDepth (pageAt baseVa i) = page

variable {P Q : Nat → Prop} {s'' : XlatState} {baseVa : U64}

theorem pageAt_zero (baseVa : U64) : pageAt baseVa 0 = baseVa := by
  simp [pageAt]

theorem pageAt_succ (baseVa : U64) (i : Nat) :
    pageAt baseVa (i + 1) = pageAt (baseVa + BitVec.ofNat 64 pageSize) i := by
  rw [pageAt, pageAt, BitVec.add_assoc, ← BitVec.ofNat_add, succ_mul, Nat.add_comm]

theorem rangePages_succ (ctx : XlatCtx) (baseVa : U64) (n page : Nat) :
    RangePages ctx baseVa (n + 1) page ↔ pageOf ctx.baseDepth baseVa = page ∨
      RangePages ctx (baseVa + BitVec.ofNat 64 pageSize) n page := by
  constructor
  · intro ⟨i, hi, hpage⟩
    cases i with
    | zero =>
      rw [pageAt_zero] at hpage
      exact .inl hpage
    | succ i =>
      rw [pageAt_succ] at hpage
      exact .inr ⟨i, lt_of_succ_lt_succ hi, hpage⟩
  · rintro (hpage | ⟨i, hi, hpage⟩)
    · exact ⟨0, succ_pos n, by rw [pageAt_zero]; exact hpage⟩
    · exact ⟨i + 1, succ_lt_succ hi, by rw [pageAt_succ]; exact hpage⟩

theorem PagesChanged.none (h : TablesMap ctx ls s) :
    PagesChanged ctx attr ls (fun _ => False) s s :=
  ⟨h, .refl s, fun _ _ => rfl, fun _ _ hp => hp.elim, fun _ _ _ => rfl⟩

section

variable (h : PagesChanged ctx attr ls P s s') (hc : Changeable ctx s attr va pa k)
include h hc

omit h in
theorem Changeable.pagesChanged (hs : VaSpace ctx) (hok : MmapOk ctx s) (h : TablesMap ctx ls s) :
    PagesChanged ctx attr ls (pageOf ctx.baseDepth va = ·) s
      (s.write (s.walkEnd ctx va).ref (s.walkEnd ctx va).idx
        (pa ||| descFlags (k.change attr))) := by
  have htype : ∀ k : DescKind, k.page = true → (pa ||| descFlags k) &&& descMask = pageDesc := by
    intro k hpage
    rw [hc.desc.address.or_descMask, hpage]
    rfl
  obtain ⟨e, y, hlvl, -, hy, hle, hlt, hdesc⟩ := h.walkEnd_alias hs hc.index
  have hleaf := hdesc.resolve_left <| ne_invalidDesc_of_leafType (e := 0) <| by
    rw [hc.desc.eq]
    exact htype k hc.desc.page
  obtain rfl : e = 0 := by
    have hlevel3 := hc.level
    omega
  have hch := regionPlan_leaf_change hs hok.valid hleaf hc.desc attr
  obtain ⟨hfol, hfrm⟩ := h.setPage hs (hs.aliasOf_le hc.index)
    (by rw [walkEnd_aliasOf]; exact hc.level)
    (by rw [walkEnd_aliasOf, hc.desc.eq]; exact htype k hc.desc.page)
    (htype (k.change attr) hc.desc.page)
    (fun y' hy' hle' hlt' => by
      have hyy : y' = y := by
        have h1 := eq_of_block hy' hy
        have h2 := eq_of_block hy hy'
        omega
      rw [hyy]
      exact hch)
    rfl
  rw [walkEnd_aliasOf] at hfol hfrm
  have hsame := s.sameRegions_write (s.walkEnd ctx va).ref (s.walkEnd ctx va).idx
    (pa ||| descFlags (k.change attr))
  refine ⟨?_, hsame, fun va' hidx => (hfrm va' hidx).1, fun va' hidx hpage => ?_,
    fun va' hidx hpage => (hfrm va' hidx).2 ?_⟩
  · rw [TablesMap, live, hsame.mmap]
    exact hfol
  · have hend : s.walkEnd ctx va' = s.walkEnd ctx va :=
      (entryFor_congr_page ctx.baseDepth_le hpage).symm
    rw [hend, hc.desc.eq, ← hc.desc.regime, rebuiltDesc_eq hc.desc.address hc.desc.page]
    exact congrArg some (s.read_write_self _ _ _).symm
  · rw [ctx.pageOf_aliasOf]
    exact fun hp => hpage hp.symm

omit hc in
theorem PagesChanged.trans (h' : PagesChanged ctx attr ls Q s' s'') :
    PagesChanged ctx attr ls (fun p => P p ∨ Q p) s s'' := by
  refine ⟨h'.map, h.regions.trans h'.regions, fun va hidx => ?_, fun va hidx hpq => ?_,
    fun va hidx hpq => ?_⟩
  · rw [h'.ends va hidx, h.ends va hidx]
  · have hins := h.inside va hidx
    have hinside' := h'.inside va hidx
    have houtside' := h'.outside va hidx
    rw [h.ends va hidx] at hinside' houtside'
    by_cases hq : Q (pageOf ctx.baseDepth va)
    · by_cases hp : P (pageOf ctx.baseDepth va)
      · -- The descriptor is rebuilt twice, which is the same as once.
        rw [hins hp, ← hinside' hq, rebuiltDesc_idem (hins hp)]
      · rw [← h.outside va hidx hp]
        exact hinside' hq
    · rw [houtside' hq]
      exact hins (hpq.resolve_right hq)
  · have houtside' := h'.outside va hidx fun hq => hpq (.inr hq)
    rw [h.ends va hidx] at houtside'
    rw [houtside', h.outside va hidx fun hp => hpq (.inl hp)]

/-- A page that has been changed may be changed again. -/
theorem PagesChanged.changed (hp : P (pageOf ctx.baseDepth va)) :
    Changeable ctx s' attr va pa (k.change attr) := by
  have hend := h.ends va hc.index
  have hins := h.inside va hc.index hp
  rw [hc.desc.eq, ← hc.desc.regime, rebuiltDesc_eq hc.desc.address hc.desc.page] at hins
  refine ⟨hc.index, by rw [hend]; exact hc.level, ?_, hc.device⟩
  rw [hend, ← some.inj hins]
  exact ⟨hc.desc.address, hc.desc.regime, hc.desc.page, rfl⟩

/-- A page that may be changed still may after a change of others, or of itself. -/
theorem PagesChanged.changeable : ∃ k', Changeable ctx s' attr va pa k' := by
  have hend := h.ends va hc.index
  by_cases hp : P (pageOf ctx.baseDepth va)
  · exact ⟨k.change attr, h.changed hc hp⟩
  · refine ⟨k, hc.index, by rw [hend]; exact hc.level, ?_, hc.device⟩
    rw [hend, h.outside va hc.index hp]
    exact hc.desc

end

/-- **The second loop** rebuilds the descriptors of the pages of the range. -/
theorem changePages_spec (hs : VaSpace ctx) (hok : MmapOk ctx s) (h : TablesMap ctx ls s)
    (hinit : s.initialized = true)
    (hpg : ∀ i < n, ∃ pa k, Changeable ctx s attr (pageAt baseVa i) pa k) :
    ∃ s', changePages ctx attr n s baseVa = some s' ∧
      PagesChanged ctx attr ls (RangePages ctx baseVa n) s s' := by
  induction n generalizing s baseVa with
  | zero =>
    refine ⟨s, rfl, ?_⟩
    have hnone : RangePages ctx baseVa 0 = fun _ => False :=
      funext fun _ => propext ⟨fun ⟨_, hi, _⟩ => absurd hi (not_lt_zero _), False.elim⟩
    rw [hnone]
    exact PagesChanged.none h
  | succ n ih =>
    obtain ⟨pa, k, hc⟩ := hpg 0 (succ_pos n)
    rw [pageAt_zero] at hc
    have hfst := hc.pagesChanged hs hok h
    have hsame := hfst.regions
    have hrestPages : ∀ i < n, ∃ pa' k', Changeable ctx
        (s.write (s.walkEnd ctx baseVa).ref (s.walkEnd ctx baseVa).idx
          (pa ||| descFlags (k.change attr))) attr
        (pageAt (baseVa + BitVec.ofNat 64 pageSize) i) pa' k' := by
      intro i hi
      obtain ⟨pa', k', hc'⟩ := hpg (i + 1) (succ_lt_succ hi)
      rw [pageAt_succ] at hc'
      exact ⟨pa', hfst.changeable hc'⟩
    obtain ⟨s', hrest, hchg⟩ := ih (hok.congr hsame.mmap hsame.maxVa hsame.maxPa) hfst.map
      (hsame.initialized.trans hinit) hrestPages
    refine ⟨s', ?_, ?_⟩
    · rw [changePages, hc.changePage hs h hinit, bind_some, hrest]
    · rw [funext fun p => propext (rangePages_succ ctx baseVa n p)]
      exact hfst.trans hchg

theorem changeablePages_eq_true (h : changeablePages ctx s attr n baseVa = some true) :
    ∀ i < n, changeablePage ctx s (pageAt baseVa i) attr = some true := by
  induction n generalizing baseVa with
  | zero => exact fun i hi => absurd hi (not_lt_zero i)
  | succ n ih =>
    rw [changeablePages] at h
    split at h
    · cases h
    · cases h
    next hfst =>
      intro i hi
      cases i with
      | zero =>
        rw [pageAt_zero]
        exact hfst
      | succ i =>
        rw [pageAt_succ]
        exact ih h i (lt_of_succ_lt_succ hi)

/-! ### The call -/

/-- The address is in the range of `size` bytes from `baseVa`. -/
def InRange (baseVa size va : U64) : Prop := (va - baseVa).toNat < size.toNat
  deriving Decidable

/-- **What a change of attributes is for**: the pages of the range have the new access
attributes, with their memory type, security state and output address; the
translation of no other address changes. -/
structure ChangedAs (ctx : XlatCtx) (s s' : XlatState) (baseVa size : U64) (attr : U32) : Prop where
  pages : ∀ i < size.toNat / pageSize, ∃ old new,
    xlatGetMemAttributesInternal ctx s (pageAt baseVa i) = some (.ok old) ∧
    xlatGetMemAttributesInternal ctx s' (pageAt baseVa i) = some (.ok new) ∧
    xlatGetMemAttributesCtx ctx s' (pageAt baseVa i) =
      some (.ok (old.attributes &&& mtKept ||| (attr &&& mtReported ctx.regime))) ∧
    new.addrPa = old.addrPa
  others : ∀ va ≤ ctx.vaMaxAddress, ¬ InRange baseVa size va →
    tableWalk ctx s' va = tableWalk ctx s va

/-- Each page of the range is taken for a page of the range, or has the attributes
already. -/
def AliasesHarmless (ctx : XlatCtx) (s : XlatState) (baseVa size : U64) (attr : U32) : Prop :=
  ∀ i < size.toNat / pageSize, InRange baseVa size (ctx.aliasOf (pageAt baseVa i)) ∨
    ∃ old, xlatGetMemAttributesInternal ctx s (pageAt baseVa i) = some (.ok old) ∧
      old.attributes &&& mtReported ctx.regime = attr &&& mtReported ctx.regime

variable {size : U64}

/-- The hardware walk, for tables that follow the regions. -/
theorem tableWalk_eq (hs : VaSpace ctx) (h : TablesMap ctx ls s) (hva : va ≤ ctx.vaMaxAddress) :
    tableWalk ctx s va = some (if s.descAt (s.walkEnd ctx va) = invalidDesc then .invalid
      else .leaf (s.walkEnd ctx va).level (s.descAt (s.walkEnd ctx va))) := by
  obtain ⟨e, y, hlvl, -, -, -, -, ⟨hinv, -⟩ | hleaf⟩ := h.walkEnd hs hva
  · rw [if_pos hinv]
    exact tableWalkFrom_invalid hinv
  · have htype := regionPlan_type hleaf
    rw [if_neg (ne_invalidDesc_of_leafType htype), hlvl]
    exact tableWalkFrom_leaf ctx.baseDepth_le hleaf.2.1 hlvl htype

/-- The two ways in which the call returns. -/
theorem xlatChangeMemAttributesCtx_eq_some {ret : Int}
    (h : xlatChangeMemAttributesCtx ctx s baseVa size attr = some (s', ret)) :
    (s' = s ∧ ret = -eInval) ∨
      (ret = 0 ∧ s.initialized = true ∧ pageSize ∣ baseVa.toNat ∧ pageSize ∣ size.toNat ∧
        ¬ (attr &&& mtExecuteNever = 0 ∧ attr &&& mtRw ≠ 0) ∧
        changeablePages ctx s attr (size.toNat / pageSize) baseVa = some true ∧
        changePages ctx attr (size.toNat / pageSize) s baseVa = some s') := by
  unfold xlatChangeMemAttributesCtx at h
  split_ifs at h with hinit hal hsize hmod hwx
  case neg =>
    dsimp only at h
    split at h
    next => cases h
    next =>
      cases h
      exact .inl ⟨rfl, rfl⟩
    next hchk =>
      split_ifs at h
      obtain ⟨t, ht, heq⟩ := map_eq_some_iff.mp h
      cases heq
      exact .inr ⟨rfl, hinit, (isPageAligned_iff baseVa).mp hal,
        dvd_of_mod_eq_zero (not_not.mp hmod), hwx, hchk, ht⟩
  all_goals
    cases h
    exact .inl ⟨rfl, rfl⟩

theorem InRange.of_page (hbase : pageSize ∣ baseVa.toNat) (hsize : pageSize ∣ size.toNat)
    {va' : U64} (hva : va'.toNat = va.toNat / pageSize * pageSize) (h : InRange baseVa size va') :
    InRange baseVa size va := by
  obtain ⟨b, hb⟩ := hbase
  obtain ⟨t, ht⟩ := hsize
  unfold InRange at h ⊢
  rw [BitVec.toNat_sub] at h ⊢
  simp only [pageSize] at hb ht hva
  omega

/-- An address of a page that is changed translates as before exactly when the page had
the attributes already. -/
theorem PagesChanged.tableWalk_eq_iff {pages : Nat → Prop} {page : U64} (hs : VaSpace ctx)
    (hmap : TablesMap ctx ls s) (hwx : ¬ (attr &&& mtExecuteNever = 0 ∧ attr &&& mtRw ≠ 0))
    (h : PagesChanged ctx attr ls pages s s') (hck : Changeable ctx s attr page pa k)
    (hin : pages (pageOf ctx.baseDepth page)) (hva : va ≤ ctx.vaMaxAddress)
    (hpage : pageOf ctx.baseDepth page = pageOf ctx.baseDepth va) :
    tableWalk ctx s' va = tableWalk ctx s va ↔
      k.attributes &&& mtReported ctx.regime = attr &&& mtReported ctx.regime := by
  have hck' := h.changed hck hin
  have hend : s.walkEnd ctx va = s.walkEnd ctx page :=
    (entryFor_congr_page ctx.baseDepth_le hpage).symm
  have hend' : s'.walkEnd ctx va = s'.walkEnd ctx page :=
    (entryFor_congr_page ctx.baseDepth_le hpage).symm
  rw [tableWalk_eq hs h.map hva, tableWalk_eq hs hmap hva, hend, hend', if_neg hck.ne_invalidDesc,
    if_neg hck'.ne_invalidDesc, ← hck.desc.regime, ← attributes_change_eq_iff hwx hck.device]
  constructor
  · intro hwalk
    have hattr := congrArg (descAttributes ctx.regime)
      (Translation.leaf.inj (some.inj hwalk)).2
    rw [hck.descAttributes, hck'.descAttributes] at hattr
    exact some.inj hattr
  · intro hattr
    have hfl : descFlags (k.change attr) = descFlags k := descFlags_congr rfl rfl hattr
    rw [hck'.desc.eq, hck.desc.eq, hfl, h.ends page hck.index]

/-- **Changing the attributes of a range** does what it is for exactly when no page is
taken for another one by mistake. -/
theorem PagesChanged.changedAs_iff (hs : VaSpace ctx) (hmap : TablesMap ctx ls s)
    (hinit : s.initialized = true) (hbase : pageSize ∣ baseVa.toNat)
    (hsize : pageSize ∣ size.toNat) (hwx : ¬ (attr &&& mtExecuteNever = 0 ∧ attr &&& mtRw ≠ 0))
    (hpg : ∀ i < size.toNat / pageSize, ∃ pa k, Changeable ctx s attr (pageAt baseVa i) pa k)
    (h : PagesChanged ctx attr ls (RangePages ctx baseVa (size.toNat / pageSize)) s s') :
    ChangedAs ctx s s' baseVa size attr ↔ AliasesHarmless ctx s baseVa size attr := by
  have hinit' : s'.initialized = true := h.regions.initialized.trans hinit
  constructor
  · intro hc i hi
    obtain ⟨pa, k, hck⟩ := hpg i hi
    by_cases hin : InRange baseVa size (ctx.aliasOf (pageAt baseVa i))
    · exact .inl hin
    refine .inr ⟨_, hck.memAttributes hs hmap hinit, ?_⟩
    -- The walk for the alias shows the descriptor of the page before and after.
    have hle := hs.aliasOf_le hck.index
    exact (h.tableWalk_eq_iff hs hmap hwx hck ⟨i, hi, rfl⟩ hle (ctx.pageOf_aliasOf _).symm).mp
      (hc.others _ hle hin)
  · intro hharm
    refine ⟨fun i hi => ?_, fun va hva hout => ?_⟩
    · obtain ⟨pa, k, hck⟩ := hpg i hi
      have hck' := h.changed hck ⟨i, hi, rfl⟩
      refine ⟨_, _, hck.memAttributes hs hmap hinit, hck'.memAttributes hs h.map hinit', ?_, rfl⟩
      rw [xlatGetMemAttributesCtx, hck'.memAttributes hs h.map hinit',
        ← hck.desc.regime, ← attributes_change hwx hck.device]
      rfl
    · by_cases hp : RangePages ctx baseVa (size.toNat / pageSize) (pageOf ctx.baseDepth va)
      · obtain ⟨i, hi, hpage⟩ := hp
        obtain ⟨pa, k, hck⟩ := hpg i hi
        rcases hharm i hi with hin | ⟨old, hold, hattr⟩
        · refine absurd (InRange.of_page hbase hsize ?_ hin) hout
          rw [ctx.toNat_aliasOf, hpage, hs.pageOf_eq hva]
        · rw [hck.memAttributes hs hmap hinit] at hold
          obtain rfl := Except.ok.inj (some.inj hold)
          exact (h.tableWalk_eq_iff hs hmap hwx hck ⟨i, hi, rfl⟩ hva hpage).mpr hattr
      · have hidx := (hs.index hva).1
        rw [tableWalk_eq hs h.map hva, tableWalk_eq hs hmap hva, h.ends va hidx,
          h.outside va hidx hp]

/-- The pages of a range that passes the checks. -/
theorem changeable_of_changeablePages (hs : VaSpace ctx) (hok : MmapOk ctx s)
    (hmap : TablesMap ctx ls s) (h : changeablePages ctx s attr n baseVa = some true) :
    ∀ i < n, ∃ pa k, Changeable ctx s attr (pageAt baseVa i) pa k := fun i hi =>
  changeable_of_changeablePage hs hmap hok (changeablePages_eq_true h i hi)

/-- **One call** keeps the tables in step with the regions, up to the attributes of
pages, unless it strands tables. -/
theorem XlatInv.step (h : XlatInv ctx (fun _ _ => True) s) {op : XlatOp}
    (hnot : ¬ StrandsTables ctx s op) (hstep : s.step ctx op = some s') :
    XlatInv ctx (fun _ _ => True) s' := by
  by_cases hop : op.isRegionOp = true
  · exact h.step_region (fun _ => trivial) hop hnot hstep
  cases op with
  | changeMemAttributes =>
    refine ⟨h.mmap.step hstep, fun hinit => ?_⟩
    obtain ⟨⟨t, ret⟩, ht, rfl⟩ := map_eq_some_iff.mp hstep
    rcases xlatChangeMemAttributesCtx_eq_some ht with
      ⟨rfl, -⟩ | ⟨-, hyes, -, -, -, hchk, hch⟩
    · exact h.tables hinit
    · obtain ⟨hs, ls, hmap⟩ := h.tables hyes
      obtain ⟨s₁, hs₁, hchg⟩ := changePages_spec hs h.mmap hmap hyes
        (changeable_of_changeablePages hs h.mmap hmap hchk)
      rw [hch] at hs₁
      cases hs₁
      exact ⟨hs, ls, hchg.map⟩
  | addRegion | addDynamicRegion | removeDynamicRegion | init => exact absurd rfl hop

/-- **Every run** that strands no tables. -/
theorem XlatInv.run {ops : List XlatOp} (h : XlatInv ctx (fun _ _ => True) s)
    (hstr : Along (XlatState.step ctx) (fun s op => ¬ StrandsTables ctx s op) s ops)
    (hrun : run (XlatState.step ctx) s ops = some s') : XlatInv ctx (fun _ _ => True) s' :=
  run_invariant_along (fun _ _ _ h hnot hstep => h.step hnot hstep) h hstr hrun

/-- **Changing attributes in any reachable state**, and the protection of memory. A
call that returns an error changes nothing, and one that succeeds does what it is for
exactly when aliases do no harm. No address is ever mapped as both writable and
executable, nor as executable device memory. -/
theorem change_attributes_as_asked {ops : List XlatOp} (hreg : s.Registered ctx)
    (hstrand : Along (XlatState.step ctx) (fun s op => ¬ StrandsTables ctx s op) s ops)
    (hrun : run (XlatState.step ctx) s ops = some s') (hinit : s'.initialized = true) :
    (∀ baseVa size attr t ret, xlatChangeMemAttributesCtx ctx s' baseVa size attr = some (t, ret) →
      (ret ≠ 0 → t = s') ∧
      (ret = 0 → (ChangedAs ctx s' t baseVa size attr ↔ AliasesHarmless ctx s' baseVa size attr))) ∧
    ∀ va ≤ ctx.vaMaxAddress, ∀ level desc,
      tableWalk ctx s' va = some (.leaf level desc) → Protected ctx.regime desc := by
  have hinv : XlatInv ctx (fun _ _ => True) s' := hreg.xlatInv.run hstrand hrun
  obtain ⟨hs, ls, hmap⟩ := hinv.tables hinit
  refine ⟨fun baseVa size attr t ret hcall => ?_, fun va hva level desc hwalk => ?_⟩
  · rcases xlatChangeMemAttributesCtx_eq_some hcall with
      ⟨rfl, rfl⟩ | ⟨rfl, hyes, hbase, hsize, hwx, hchk, hch⟩
    · exact ⟨fun _ => rfl, fun h0 => absurd h0 (by decide)⟩
    · refine ⟨absurd rfl, fun _ => ?_⟩
      have hpg := changeable_of_changeablePages hs hinv.mmap hmap hchk
      obtain ⟨s₁, hs₁, hchg⟩ := changePages_spec hs hinv.mmap hmap hyes hpg
      rw [hch] at hs₁
      cases hs₁
      exact hchg.changedAs_iff hs hmap hyes hbase hsize hwx hpg
  · obtain ⟨e, y, -, -, -, -, -, ⟨hin, -⟩ | hleaf⟩ := hmap.walkEnd hs hva
    · rw [tableWalk_eq hs hmap hva, if_pos hin] at hwalk
      cases hwalk
    · rw [tableWalk_eq hs hmap hva,
        if_neg (ne_invalidDesc_of_leafType (regionPlan_type hleaf))] at hwalk
      obtain ⟨-, rfl⟩ := Translation.leaf.inj (some.inj hwalk)
      obtain ⟨pa, k, hk⟩ := regionPlan_isLeafDesc hs hinv.mmap.valid hleaf
      rw [hk.eq, ← hk.regime]
      exact hk.address.protected k

/-! ### Runs -/

/-- A page of read-only memory at address `0x1000`. -/
def onePage : List XlatOp := [.init, .addDynamicRegion (sampleRegion 0x10000 0x1000 0x1000)]

/-- The page is made execute-never, and no other address is affected. -/
theorem change_attributes_as_asked_page :
    ∃ s' t, run (XlatState.step (sampleCtx 0xFFFFFFFF 4)) (.blank (sampleCtx 0xFFFFFFFF 4))
        onePage = some s' ∧
      xlatChangeMemAttributesCtx (sampleCtx 0xFFFFFFFF 4) s' 0x1000 0x1000 mtExecuteNever =
        some (t, 0) ∧
      ChangedAs (sampleCtx 0xFFFFFFFF 4) s' t 0x1000 0x1000 mtExecuteNever := by
  simp only [exists_and_left]
  refine exists_some_imp (q := fun s' => s'.initialized = true ∧
    ∃ t, xlatChangeMemAttributesCtx (sampleCtx 0xFFFFFFFF 4) s' 0x1000 0x1000 mtExecuteNever =
      some (t, 0) ∧ True) (by decide +kernel) fun s' hrun ⟨hinit, t, ht, _⟩ => ⟨t, ht, ?_⟩
  refine (((change_attributes_as_asked (blank_registered _) (by decide +kernel) hrun
    hinit).1 _ _ _ t 0 ht).2 rfl).mpr fun i hi => .inl ?_
  obtain rfl : i = 0 := lt_one_iff.mp hi
  decide +kernel

/-- A request for a page above the address space, whose indices are those of the
mapped page, returns 0 and changes the mapped page. -/
theorem aliased_page_changed :
    ∃ s' t, run (XlatState.step (sampleCtx 0xFFFFFFFF 4)) (.blank (sampleCtx 0xFFFFFFFF 4))
        onePage = some s' ∧
      xlatChangeMemAttributesCtx (sampleCtx 0xFFFFFFFF 4) s' 0x8000001000 0x1000 mtExecuteNever =
        some (t, 0) ∧
      ¬ ChangedAs (sampleCtx 0xFFFFFFFF 4) s' t 0x8000001000 0x1000 mtExecuteNever := by
  simp only [exists_and_left]
  refine exists_some_imp (q := fun s' =>
    ∃ t, xlatChangeMemAttributesCtx (sampleCtx 0xFFFFFFFF 4) s' 0x8000001000 0x1000
        mtExecuteNever = some (t, 0) ∧
      tableWalk (sampleCtx 0xFFFFFFFF 4) t 0x1000 ≠ tableWalk (sampleCtx 0xFFFFFFFF 4) s' 0x1000)
    (by decide +kernel) fun s' _ ⟨t, ht, hwalk⟩ => ⟨t, ht, fun h => hwalk ?_⟩
  exact h.others 0x1000 (by decide) (by decide)

end TrustedFirmware.Xlat
