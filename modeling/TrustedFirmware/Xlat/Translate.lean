import TrustedFirmware.Xlat.Invariant

/-!
# What the MMU makes of the tables

The hardware walks the tables from the base table down (`tableWalk`). While the tables
follow the plan of the regions, the walk for an address finds the descriptor of the
innermost region around it, and nothing where there is no region.

The walk is followed through the tree by the place where it ends
(`XlatState.entryFor`), which is also where the functions that read and change
attributes end.
-/

namespace TrustedFirmware.Xlat

open Lib Lib.Radix BitVec XlatState XlatCtx

/-! ### The hardware walk -/

/-- How a walk for an address ends: at a descriptor that is not valid, or at one that
maps a block or a page. -/
inductive Translation
  | invalid
  | leaf (level : Nat) (desc : U64)
  deriving DecidableEq, Repr

/-- The walk from a table that has `depth` levels below it. `none` stands for what the
architecture leaves open: a reserved descriptor, or a table descriptor that does not
point to one of the context's tables. -/
def tableWalkFrom (ctx : XlatCtx) (s : XlatState) (va : U64) :
    (depth : Nat) → TableRef → Option Translation
  | 0, ref =>
    let desc := s.read ref (xlatTableIdx va 3)
    if desc &&& 1 = 0 then some .invalid
    else if desc &&& descMask = pageDesc then some (.leaf 3 desc)
    else none
  | depth + 1, ref =>
    let desc := s.read ref (xlatTableIdx va (2 - depth))
    if desc &&& 1 = 0 then some .invalid
    else if desc &&& descMask = tableDesc then
      match xlatTableGetIndex ctx (desc &&& tableAddrMask) with
      | none => none
      | some j => tableWalkFrom ctx s va depth (.sub j)
    -- There are no blocks at level 0.
    else if depth < 2 then some (.leaf (2 - depth) desc)
    else none

/-- The walk from the base table. -/
def tableWalk (ctx : XlatCtx) (s : XlatState) (va : U64) : Option Translation :=
  tableWalkFrom ctx s va ctx.baseDepth .base

/-- The physical address for `va` under a block or page descriptor: the output address
with the offset in the block. -/
def outputAddress (level : Nat) (desc va : U64) : Nat :=
  (desc &&& tableAddrMask).toNat / xlatBlockSize level * xlatBlockSize level +
    va.toNat % xlatBlockSize level

/-- The address is in the region. -/
def MmapRegion.Contains (mm : MmapRegion) (va : U64) : Prop := mm.baseVa ≤ va ∧ va ≤ mm.endVa

instance (mm : MmapRegion) (va : U64) : Decidable (mm.Contains va) :=
  inferInstanceAs (Decidable (_ ∧ _))

/-- **The translation that the regions ask for**: an address in a region is mapped as
the innermost region around it says, and an address in none is not mapped. -/
structure TranslatesAs (ctx : XlatCtx) (s : XlatState) (va : U64) : Prop where
  mapped : ∀ mm ∈ s.live, mm.Contains va → (∀ mm' ∈ s.live, mm'.Contains va → mm.size ≤ mm'.size) →
    ∃ level desc pa, tableWalk ctx s va = some (.leaf level desc) ∧
      xlatDesc ctx.regime mm.attr pa level = some desc ∧
      outputAddress level desc va = mm.basePa.toNat + (va.toNat - mm.baseVa.toNat)
  unmapped : (∀ mm ∈ s.live, ¬ mm.Contains va) → tableWalk ctx s va = some .invalid

/-! ### Where a walk ends -/

/-- The place where the walk for an address ends. -/
def XlatState.entryFor (ctx : XlatCtx) (s : XlatState) (va : U64) : Nat → TableRef → TableEntry
  | 0, ref => ⟨ref, xlatTableIdx va 3, 3⟩
  | d + 1, ref =>
    match ctx.tableOf (s.read ref (xlatTableIdx va (2 - d))) with
    | some j => s.entryFor ctx va d (.sub j)
    | none => ⟨ref, xlatTableIdx va (2 - d), 2 - d⟩

/-- The place where the walk from the base table ends. -/
abbrev XlatState.walkEnd (ctx : XlatCtx) (s : XlatState) (va : U64) : TableEntry :=
  s.entryFor ctx va ctx.baseDepth .base

/-- The descriptor at a place. -/
def XlatState.descAt (s : XlatState) (e : TableEntry) : U64 := s.read e.ref e.idx

section

variable {ctx : XlatCtx} {s : XlatState} {va : U64} {l : Plan U64} {ref : TableRef} {d x j : Nat}
  {desc : U64}

theorem XlatCtx.tableOf_invalid : ctx.tableOf invalidDesc = none := by
  cases h : ctx.tableOf invalidDesc with
  | none => rfl
  | some =>
    obtain ⟨hj, hdesc⟩ := tableOf_eq_some h
    exact absurd hdesc.symm (tableDescOf_ne_invalid hj)

theorem XlatState.tableOf_of_leaf {a : U64} (h : s.node ctx (d + 1) desc = .leaf a) :
    ctx.tableOf desc = none := by
  have h0 : desc ≠ invalidDesc := by
    intro h0
    simp [h0] at h
  rw [node, if_neg h0] at h
  split at h
  · cases h
  · assumption

theorem xlatTableIdx_lt (va : U64) (level : Nat) : xlatTableIdx va level < xlatTableEntries := by
  exact Nat.lt_succ_of_le Nat.and_le_right

theorem xlatTableIdx_eq (hd : d ≤ 3) :
    xlatTableIdx va (3 - d) = va.toNat / geo.size d % xlatTableEntries := by
  have hmask : (0x1FF : U64).toNat = 2 ^ 9 - 1 := rfl
  rw [xlatTableIdx, toNat_and, toNat_ushiftRight, hmask,
    Nat.and_two_pow_sub_one_eq_mod, Nat.shiftRight_eq_div_pow, ← xlatBlockSize_eq hd]
  rfl

/-- The index of an address in the table of a block around it. -/
theorem xlatTableIdx_eq_div (hd : d + 1 ≤ 3) (hx : geo.size (d + 1) ∣ x) (hle : x ≤ va.toNat)
    (hlt : va.toNat < x + geo.size (d + 1)) :
    xlatTableIdx va (3 - d) = (va.toNat - x) / geo.size d := by
  obtain ⟨hin, -, -⟩ := geo.kidAt_div hle hlt
  obtain ⟨q, rfl⟩ := hx
  rw [geo.size_succ, mul_comm geo.fan, mul_assoc] at hin hle ⊢
  rw [xlatTableIdx_eq (by omega)]
  have hspl : va.toNat / geo.size d =
      (va.toNat - geo.size d * (geo.fan * q)) / geo.size d + geo.fan * q := by
    rw [← Nat.add_mul_div_left _ _ (geo.size_pos d), Nat.sub_add_cancel hle]
  rw [hspl]
  exact (Nat.add_mul_mod_self_left _ _ _).trans (Nat.mod_eq_of_lt hin)

/-- What is at the end of a walk is what the plan has for the block there. -/
theorem XlatState.entryFor_follows (hd : d ≤ 3) (hx : geo.size d ∣ x) (hle : x ≤ va.toNat)
    (hlt : va.toNat < x + geo.size d)
    (hf : (s.node ctx d (s.read ref (xlatTableIdx va (3 - d)))).Follows geo l x) :
    ∃ e y, (s.entryFor ctx va d ref).level = 3 - e ∧ e ≤ d ∧ geo.size e ∣ y ∧ y ≤ va.toNat ∧
      va.toNat < y + geo.size e ∧
      ((s.descAt (s.entryFor ctx va d ref) = invalidDesc ∧ l.count e y = 0) ∨
        l.leaf e y (s.descAt (s.entryFor ctx va d ref))) := by
  induction d generalizing ref x with
  | zero =>
    refine ⟨0, x, rfl, le_rfl, hx, hle, hlt, ?_⟩
    cases hn : s.node ctx 0 (s.read ref (xlatTableIdx va (3 - 0))) with
    | empty =>
      rw [hn] at hf
      exact .inl ⟨node_eq_empty hn, hf⟩
    | leaf =>
      rw [hn, ← node_eq_leaf hn] at hf
      exact .inr hf
  | succ d ih =>
    have hlev : 3 - (d + 1) = 2 - d := by omega
    cases hn : s.node ctx (d + 1) (s.read ref (xlatTableIdx va (3 - (d + 1)))) with
    | empty =>
      have hdesc := node_eq_empty hn
      rw [hlev] at hdesc
      rw [hn] at hf
      have hen : s.entryFor ctx va (d + 1) ref = ⟨ref, xlatTableIdx va (2 - d), 2 - d⟩ := by
        rw [entryFor, hdesc, tableOf_invalid]
      rw [hen]
      exact ⟨d + 1, x, hlev.symm, le_rfl, hx, hle, hlt, .inl ⟨hdesc, hf⟩⟩
    | leaf =>
      have hdesc := node_eq_leaf hn
      have hnone := tableOf_of_leaf hn
      rw [hlev] at hdesc hnone
      rw [hn, ← hdesc] at hf
      have hen : s.entryFor ctx va (d + 1) ref = ⟨ref, xlatTableIdx va (2 - d), 2 - d⟩ := by
        rw [entryFor, hnone]
      rw [hen]
      exact ⟨d + 1, x, hlev.symm, le_rfl, hx, hle, hlt, .inr hf⟩
    | table j =>
      obtain ⟨hj, hdesc, -, rfl⟩ := node_eq_table hn
      rw [hn] at hf
      obtain ⟨hin, hkid, hend⟩ := geo.kidAt_div hle hlt
      have hidx := xlatTableIdx_eq_div hd hx hle hlt
      have hsub := hf.2.2 _ hin
      rw [kids_of_lt (n := xlatTableEntries) hin, ← hidx] at hsub
      have hen : s.entryFor ctx va (d + 1) ref = s.entryFor ctx va d (.sub j) := by
        rw [entryFor, ← hlev, hdesc, tableOf_tableDescOf hj]
      rw [hen]
      rw [← hidx] at hkid hend
      obtain ⟨e, y, hlvl, hed, hrest⟩ :=
        ih (by omega) (geo.dvd_kidAt hx _) hkid hend hsub
      exact ⟨e, y, hlvl, Nat.le_succ_of_le hed, hrest⟩

theorem and_one_eq (desc : U64) : desc &&& 1 = desc &&& descMask &&& 1 := by
  rw [BitVec.and_assoc]
  rfl

theorem tableWalkFrom_table (hj : ctx.tableOf (s.read ref (xlatTableIdx va (2 - d))) = some j) :
    tableWalkFrom ctx s va (d + 1) ref = tableWalkFrom ctx s va d (.sub j) := by
  obtain ⟨hlt, hdesc⟩ := tableOf_eq_some hj
  have hmask := tableDescOf_and_descMask hlt
  rw [tableWalkFrom, hdesc, and_one_eq, hmask, if_neg (by decide), if_pos rfl,
    xlatTableGetIndex_tableDescOf hlt]

/-- The hardware walk ends there: at a descriptor that is not valid, -/
theorem tableWalkFrom_invalid (h : s.descAt (s.entryFor ctx va d ref) = invalidDesc) :
    tableWalkFrom ctx s va d ref = some .invalid := by
  induction d generalizing ref with
  | zero =>
    have hread : s.read ref (xlatTableIdx va 3) = invalidDesc := h
    rw [tableWalkFrom, hread]
    rfl
  | succ d ih =>
    cases hj : ctx.tableOf (s.read ref (xlatTableIdx va (2 - d))) with
    | some =>
      rw [entryFor, hj] at h
      rw [tableWalkFrom_table hj]
      exact ih h
    | none =>
      rw [entryFor, hj] at h
      have hread : s.read ref (xlatTableIdx va (2 - d)) = invalidDesc := h
      rw [tableWalkFrom, hread]
      rfl

/-- or at one that maps memory. -/
theorem tableWalkFrom_leaf {e : Nat} (hd : d ≤ 3) (he : e < 3)
    (hlvl : (s.entryFor ctx va d ref).level = 3 - e)
    (h : s.descAt (s.entryFor ctx va d ref) &&& descMask = leafType e) :
    tableWalkFrom ctx s va d ref = some (.leaf (3 - e) (s.descAt (s.entryFor ctx va d ref))) := by
  induction d generalizing ref with
  | zero =>
    obtain rfl : e = 0 := by
      have h3 : 3 = 3 - e := hlvl
      omega
    have hmask : s.read ref (xlatTableIdx va 3) &&& descMask = pageDesc := h
    rw [tableWalkFrom, and_one_eq, hmask, if_neg (by decide), if_pos rfl]
    rfl
  | succ d ih =>
    cases hj : ctx.tableOf (s.read ref (xlatTableIdx va (2 - d))) with
    | some =>
      rw [entryFor, hj] at h hlvl ⊢
      rw [tableWalkFrom_table hj]
      exact ih (by omega) hlvl h
    | none =>
      rw [entryFor, hj] at h hlvl ⊢
      obtain rfl : e = d + 1 := by
        have h2 : 2 - d = 3 - e := hlvl
        omega
      have hmask : s.read ref (xlatTableIdx va (2 - d)) &&& descMask = blockDesc := h
      have hlt : d < 2 := by omega
      rw [tableWalkFrom, and_one_eq, hmask, if_neg (by decide), if_neg (by decide), if_pos hlt,
        show 3 - (d + 1) = 2 - d by omega]
      rfl

end

/-! ### The walk and the regions -/

variable {ctx : XlatCtx} {allowed : MmapRegion → U32 → Prop} {s s' : XlatState} {va : U64}
  {ls : List (Nat × Nat)} {mm : MmapRegion}

/-- The entry of the base table for an address of the address space. -/
theorem VaSpace.index (hs : VaSpace ctx) (hva : va ≤ ctx.vaMaxAddress) :
    xlatTableIdx va (3 - ctx.baseDepth) < ctx.baseTableEntries ∧
      ctx.treeAt (xlatTableIdx va (3 - ctx.baseDepth)) ≤ va.toNat ∧
      va.toNat < ctx.treeAt (xlatTableIdx va (3 - ctx.baseDepth)) + geo.size ctx.baseDepth := by
  have hle := le_def.mp hva
  have htot := hs.total
  have hpos := geo.size_pos ctx.baseDepth
  have hlt : va.toNat / geo.size ctx.baseDepth < ctx.baseTableEntries := by
    rw [Nat.div_lt_iff_lt_mul hpos]
    omega
  have hidx : xlatTableIdx va (3 - ctx.baseDepth) = va.toNat / geo.size ctx.baseDepth := by
    rw [xlatTableIdx_eq ctx.baseDepth_le]
    exact Nat.mod_eq_of_lt (hlt.trans_le hs.entries_le)
  rw [hidx, treeAt, Geometry.kidAt, zero_add]
  exact ⟨hlt, Nat.div_mul_le_self _ _, Nat.lt_div_mul_add hpos⟩

/-- What the tables hold for an address. -/
theorem TablesFollow.walkEnd {l : Plan U64} (h : TablesFollow ctx l s) (hs : VaSpace ctx)
    (hva : va ≤ ctx.vaMaxAddress) :
    ∃ e y, (s.walkEnd ctx va).level = 3 - e ∧ e ≤ ctx.baseDepth ∧
      geo.size e ∣ y ∧ y ≤ va.toNat ∧ va.toNat < y + geo.size e ∧
      ((s.descAt (s.walkEnd ctx va) = invalidDesc ∧ l.count e y = 0) ∨
        l.leaf e y (s.descAt (s.walkEnd ctx va))) := by
  obtain ⟨hlt, hle, hend⟩ := hs.index hva
  have hf := h.follows _ hlt
  rw [tree, kids_of_lt hlt] at hf
  exact entryFor_follows ctx.baseDepth_le (ctx.dvd_treeAt _) hle hend hf

theorem RegionOk.contains_iff (h : RegionOk ctx mm) :
    mm.Contains va ↔ mm.range.lo ≤ va.toNat ∧ va.toNat < mm.range.hi := by
  have hend := h.endVa
  simp only [MmapRegion.Contains, le_def, MmapRegion.range]
  omega

/-- The output address of a descriptor of a region. -/
theorem RegionOk.outputAddress (h : RegionOk ctx mm) (hs : VaSpace ctx) {e y : Nat} {desc : U64}
    {attr : U32} (he : e ≤ 3) (hy : geo.size e ∣ y) (hle : y ≤ va.toNat)
    (hlt : va.toNat < y + geo.size e) (hc : mm.range.Covers y (geo.size e))
    (hdesc : xlatDesc ctx.regime attr (mm.paAt y) (3 - e) = some desc) :
    outputAddress (3 - e) desc va = mm.basePa.toNat + (va.toNat - mm.baseVa.toNat) := by
  have hmap := h.mappable hs
  have hend := hc.2
  have hlo : mm.baseVa.toNat ≤ y := hc.1
  have hpa := hmap.toNat_paAt hc.1 (by omega)
  have hpaLt : (mm.paAt y).toNat < 2 ^ 48 := by
    have := hmap.pa_le
    simp only [MmapRegion.range] at hend
    omega
  have hdvd := (xlatDesc_eq_some hdesc).1
  rw [xlatBlockSize_eq he] at hdvd
  have hoff : va.toNat % geo.size e = va.toNat - y := by
    obtain ⟨q, rfl⟩ := hy
    rw [← Nat.sub_mul_mod hle]
    exact Nat.mod_eq_of_lt (by omega)
  rw [Xlat.outputAddress, xlatDesc_and_tableAddrMask hdesc hpaLt, xlatBlockSize_eq he,
    Nat.div_mul_cancel hdvd, hoff, hpa]
  omega

/-- **Tables that follow the regions translate as the regions say.** -/
theorem TablesFollow.translatesAs (hok : MmapOk ctx s) (hs : VaSpace ctx)
    (h : TablesFollow ctx (regionPlan ctx.regime (fun r attr => attr = r.attr) s.live ls) s)
    (hva : va ≤ ctx.vaMaxAddress) : TranslatesAs ctx s va := by
  obtain ⟨e, y, hlvl, -, hy, hle, hlt, hend⟩ := h.walkEnd hs hva
  have hbase := ctx.baseDepth_le
  have hmt : ∀ r ∈ s.live, r.Contains va → r.range.Meets y (geo.size e) := by
    intro r hr hrva
    obtain ⟨hlo, hhi⟩ := (hok.valid r hr).contains_iff.mp hrva
    exact ⟨hle.trans_lt hhi, hlo.trans_lt hlt⟩
  rcases hend with ⟨hinv, hcnt⟩ | hleaf
  · -- No region has an address in the block.
    refine ⟨fun mm hmm hmmva => ?_, fun _ => tableWalkFrom_invalid hinv⟩
    have hnone := List.countP_eq_zero.mp (Nat.add_eq_zero_iff.mp hcnt).1 mm hmm
    exact absurd (decide_eq_true (hmt mm hmm hmmva)) hnone
  · obtain ⟨-, he, -, r, hr, hcov, ⟨attr, hattr, hdesc⟩, hinn⟩ := hleaf
    obtain rfl : attr = r.attr := hattr
    have hwalk := tableWalkFrom_leaf hbase he hlvl (xlatDesc_leafType hdesc)
    have hcon : r.Contains va := by
      refine (hok.valid r hr).contains_iff.mpr ⟨hcov.1.trans hle, ?_⟩
      exact hlt.trans_le hcov.2
    refine ⟨fun mm hmm hmmva hmin => ?_, fun hnone => absurd hcon (hnone r hr)⟩
    have hmmr : mm = r := by
      rcases hinn mm hmm (hmt mm hmm hmmva) with heq | hins
      · exact heq
      · have hsize := hmin r hr hcon
        obtain ⟨hlo, hhi, hne⟩ := hins
        rw [le_def] at hsize
        simp only [MmapRegion.range, ne_eq, Range.mk.injEq] at hlo hhi hne
        omega
    subst hmmr
    exact ⟨3 - e, _, mm.paAt y, hwalk, hdesc,
      (hok.valid mm hmm).outputAddress hs (by omega) hy hle hlt hcov hdesc⟩

/-- **The tables translate every address as the regions say**, in every state that
calls on the regions lead to, as long as no call strands tables. -/
theorem translates_as_regions {ops : List XlatOp} (hreg : s.Registered ctx)
    (hops : ∀ op ∈ ops, op.isRegionOp = true)
    (hstrand : Along (step ctx) (fun s op => ¬ StrandsTables ctx s op) s ops)
    (hrun : run (step ctx) s ops = some s') (hinit : s'.initialized = true)
    (hva : va ≤ ctx.vaMaxAddress) : TranslatesAs ctx s' va := by
  have hinv : XlatInv ctx (fun r attr => attr = r.attr) s' :=
    run_invariant_along (fun _ _ _ h hop hstep => h.step_region (fun _ => rfl) hop.1 hop.2 hstep)
      hreg.xlatInv (hstrand.and_forall hops) hrun
  obtain ⟨hs, ls, hfol⟩ := hinv.tables hinit
  exact hfol.translatesAs hinv.mmap hs hva

/-! ### Runs -/

/-- Two pages at the end of a 2 MiB block, a region of the second of them, and a
dynamic region in the next block. -/
def nestedMapping : List XlatOp :=
  [.addRegion (sampleRegion 0x3FE000 0x3FE000 0x2000),
    .addRegion (sampleRegion 0x3FF000 0x3FF000 0x1000), .init,
    .addDynamicRegion (sampleRegion 0x10000 0x400000 0x1000)]

/-- The page that both static regions contain is mapped as the smaller one says. -/
theorem translates_as_regions_nested :
    ∃ s', run (step (sampleCtx 0xFFFFFFFF 4)) (.blank (sampleCtx 0xFFFFFFFF 4))
        nestedMapping = some s' ∧ s'.live.length = 3 ∧
      TranslatesAs (sampleCtx 0xFFFFFFFF 4) s' 0x3FF123 := by
  refine exists_some_imp (q := fun s' => s'.live.length = 3 ∧ s'.initialized = true)
    (by decide +kernel) fun s' hrun ⟨hlive, hinit⟩ => ⟨hlive, ?_⟩
  exact translates_as_regions (blank_registered _) (by decide) (by decide +kernel) hrun
    hinit (by decide)

/-- With an address space of 2⁴⁰ bytes and seven tables, the second dynamic region
runs out of tables at the second gigabyte. A table is freed with an entry for that
gigabyte left in it. The third region gets this table as one of level 3, where the
entry looks like the page that it is about to write. -/
def strandingMapping : List XlatOp :=
  [.init, .addDynamicRegion (sampleRegion 0x10000 0x8000000000 0x1000),
    .addDynamicRegion (sampleRegion 0x20000 0x3FFFF000 0x2000),
    .addDynamicRegion (sampleRegion 0x30000 0x8000200000 0x2000)]

/-- Every call returns, and the second page of the third region is mapped to a
translation table. -/
theorem stranded_translation :
    ∃ s', run (step (sampleCtx 0xFFFFFFFFFF 7)) (.blank (sampleCtx 0xFFFFFFFFFF 7))
        strandingMapping = some s' ∧ s'.initialized = true ∧
      ¬ TranslatesAs (sampleCtx 0xFFFFFFFFFF 7) s' 0x8000201000 := by
  refine exists_some_imp (q := fun s' => s'.initialized = true ∧
    s'.live = [sampleRegion 0x10000 0x8000000000 0x1000,
      sampleRegion 0x30000 0x8000200000 0x2000].map MmapRegion.asDynamic ∧
    tableWalk (sampleCtx 0xFFFFFFFFFF 7) s' 0x8000201000 = some (.leaf 3 0x7003))
    (by decide +kernel) fun s' _ ⟨hinit, hlive, hwalk⟩ => ⟨hinit, fun h => ?_⟩
  have hmap := h.mapped (sampleRegion 0x30000 0x8000200000 0x2000).asDynamic
  rw [hlive] at hmap
  obtain ⟨level, desc, pa, hleaf, -, hout⟩ := hmap (by decide) (by decide) (by decide)
  rw [hwalk] at hleaf
  obtain ⟨rfl, rfl⟩ := Translation.leaf.inj (Option.some.inj hleaf)
  cases hout

end TrustedFirmware.Xlat
