import TrustedFirmware.Xlat.ChangeAttrs

/-!
# The memory permission calls of a secure partition (`sprt.c`)

The conversions between the attributes of the SMC interface and those of the translation
tables, and the two calls that read and change the permissions of pages.

Both calls hold the lock of the partition's translation context from the first access
to the tables to the last, so each is one step. The context is one of
`TrustedFirmware.Xlat`; `none` is a failed assertion. The calls return an `int32_t`,
which is modelled by its 32 bits.
-/

namespace TrustedFirmware.Spm.MemPerm

open Lib Xlat BitVec

/-! ### The interface -/

def sprtMemoryPermAttrRo : U32 := 0
def sprtMemoryPermAttrRw : U32 := 1
def sprtMemoryPermAttrRoExec : U32 := 2
def sprtMemoryPermAttrMask : U32 := 3
def sprtMemoryPermAttrShift : Nat := 3

def sprtSuccess : U32 := 0
def sprtInvalidParameter : U32 := -2

/-- `UINT_MAX`. -/
def uintMax : U32 := 0xFFFFFFFF

/-- `smc_attr_to_mmap_attr`. -/
def smcAttrToMmapAttr (attributes : U32) : U32 :=
  let perm := attributes &&& sprtMemoryPermAttrMask
  if perm = sprtMemoryPermAttrRw then mtRw ||| mtExecuteNever ||| mtUser
  else if perm = sprtMemoryPermAttrRo then mtExecuteNever ||| mtUser
  else if perm = sprtMemoryPermAttrRoExec then mtUser
  else uintMax

/-- `mmap_attr_to_smc_attr`. -/
def mmapAttrToSmcAttr (attr : U32) : Option U32 :=
  -- No access from EL0.
  if attr &&& mtUser = 0 then some uintMax
  else if attr &&& mtRw ≠ 0 then
    if mtType attr ≠ mtDevice then some (sprtMemoryPermAttrRw <<< sprtMemoryPermAttrShift)
    else none
  else if attr &&& mtExecuteNever ≠ 0 then
    some (sprtMemoryPermAttrRo <<< sprtMemoryPermAttrShift)
  else some (sprtMemoryPermAttrRoExec <<< sprtMemoryPermAttrShift)

/-- `sprt_memory_perm_attr_get`. -/
def sprtMemoryPermAttrGet (ctx : XlatCtx) (s : XlatState) (baseVa : U64) : Option U32 :=
  match xlatGetMemAttributesCtx ctx s baseVa with
  | none => none
  | some (.error _) => some sprtInvalidParameter
  | some (.ok attributes) =>
    (mmapAttrToSmcAttr attributes).map fun perm =>
      if perm = uintMax then sprtInvalidParameter else sprtSuccess ||| perm

/-- The size that `sprt_memory_perm_attr_set` computes, in 64 bits. -/
def sizeOfPages (pagesCount : U64) : U64 := pagesCount * BitVec.ofNat 64 pageSize

/-- `sprt_memory_perm_attr_set`. -/
def sprtMemoryPermAttrSet (ctx : XlatCtx) (s : XlatState)
    (pageAddress pagesCount smcAttributes : U64) : Option (XlatState × U32) :=
  let mmapAttr := smcAttrToMmapAttr (smcAttributes.setWidth 32)
  if mmapAttr = uintMax then some (s, sprtInvalidParameter)
  else
    match xlatGetMemAttributesCtx ctx s pageAddress with
    | none => none
    | some (.error _) => some (s, sprtInvalidParameter)
    | some (.ok attributes) =>
      -- Prohibit changing attributes of S-EL1 regions.
      if attributes &&& mtUser = 0 then some (s, sprtInvalidParameter)
      else
        (xlatChangeMemAttributesCtx ctx s pageAddress (sizeOfPages pagesCount) mmapAttr).map
          fun r => (r.1, if r.2 = 0 then sprtSuccess else sprtInvalidParameter)

/-- The calls that the SPM makes on the context of a partition: it adds static regions,
sets up the tables, and then changes attributes. -/
def OnPartition : XlatOp → Prop
  | .addRegion _ | .init | .changeMemAttributes _ _ _ => True
  | .addDynamicRegion _ | .removeDynamicRegion _ _ => False

instance : (op : XlatOp) → Decidable (OnPartition op)
  | .addRegion _ | .init | .changeMemAttributes _ _ _ => .isTrue trivial
  | .addDynamicRegion _ | .removeDynamicRegion _ _ => .isFalse id

/-! ### What the calls are for -/

/-- The end of a walk that lets EL0 access the address. -/
def unprivileged : Translation → Bool
  | .invalid => false
  | .leaf _ desc => desc >>> ap1Shift &&& 1 = ap1AccessUnprivileged

/-- The hardware lets EL0 access the address. -/
def AccessibleEl0 (ctx : XlatCtx) (s : XlatState) (va : U64) : Prop :=
  va ≤ ctx.vaMaxAddress ∧ (tableWalk ctx s va).any unprivileged = true
  deriving Decidable

/-- The `n` pages from `pageAddress` are in the address space; the range does not wrap. -/
def PagesInside (ctx : XlatCtx) (pageAddress : U64) (n : Nat) : Prop :=
  ∀ i < n, pageAddress.toNat + i * pageSize ≤ ctx.vaMaxAddress.toNat

instance (ctx : XlatCtx) (pageAddress : U64) (n : Nat) :
    Decidable (PagesInside ctx pageAddress n) :=
  inferInstanceAs (Decidable (∀ i < n, _))

/-- All of `n` pages from `pageAddress` are accessible from EL0; the range does not
wrap. -/
def PagesAccessible (ctx : XlatCtx) (s : XlatState) (pageAddress : U64) (n : Nat) : Prop :=
  ∀ i < n, pageAddress.toNat + i * pageSize ≤ ctx.vaMaxAddress.toNat ∧
    AccessibleEl0 ctx s (pageAt pageAddress i)

instance (ctx : XlatCtx) (s : XlatState) (pageAddress : U64) (n : Nat) :
    Decidable (PagesAccessible ctx s pageAddress n) :=
  inferInstanceAs (Decidable (∀ i < n, _))

/-- The word that a get returns stands, for a set, for the given attribute. -/
def StandsFor (smcAttributes : U64) (perm : U32) : Prop :=
  perm ≠ sprtInvalidParameter ∧
    smcAttrToMmapAttr perm = smcAttrToMmapAttr (smcAttributes.setWidth 32)
  deriving Decidable

/-- **What a successful set is for**: the pages were the partition's to change, a get
returns what was set, and nothing else changes. -/
structure PermSet (ctx : XlatCtx) (s t : XlatState) (pageAddress pagesCount smcAttributes : U64) :
    Prop where
  accessible : PagesAccessible ctx s pageAddress pagesCount.toNat
  readBack : ∀ i < pagesCount.toNat,
    (sprtMemoryPermAttrGet ctx t (pageAt pageAddress i)).any (StandsFor smcAttributes ·) = true
  privileged : ∀ va ≤ ctx.vaMaxAddress, ¬ AccessibleEl0 ctx s va →
    tableWalk ctx t va = tableWalk ctx s va
  outside : ∀ va ≤ ctx.vaMaxAddress, ¬ (pageAddress.toNat ≤ va.toNat ∧
      va.toNat < pageAddress.toNat + pagesCount.toNat * pageSize) →
    tableWalk ctx t va = tableWalk ctx s va

/-! ### Encodings -/

variable {attributes : U32} {k : DescKind}

/-- A get returns the permissions three bits higher than a set takes them, so a set takes
what a get returns for read-only. -/
theorem readBack_change (k : DescKind) (hreg : k.regime = .el1El0) {m perm : U32}
    (hperm : perm < 3) (hm : m = smcAttrToMmapAttr perm) :
    ((mmapAttrToSmcAttr (k.change m).attributes).map fun p =>
      if p = uintMax then sprtInvalidParameter else sprtSuccess ||| p).any
        (fun p => p ≠ sprtInvalidParameter ∧ smcAttrToMmapAttr p = m) = true ↔
      perm = sprtMemoryPermAttrRo := by
  have hcas : perm = 0 ∨ perm = 1 ∨ perm = 2 := by bv_omega
  subst hm
  revert k
  rcases hcas with rfl | rfl | rfl <;> decide +kernel

theorem smcAttrToMmapAttr_lt (h : smcAttrToMmapAttr attributes ≠ uintMax) :
    attributes &&& sprtMemoryPermAttrMask < 3 ∧
      smcAttrToMmapAttr (attributes &&& sprtMemoryPermAttrMask) = smcAttrToMmapAttr attributes := by
  have hmask : attributes &&& sprtMemoryPermAttrMask &&& sprtMemoryPermAttrMask =
      attributes &&& sprtMemoryPermAttrMask := by
    rw [BitVec.and_assoc, BitVec.and_self]
  refine ⟨?_, by simp only [smcAttrToMmapAttr, hmask]⟩
  simp only [smcAttrToMmapAttr] at h
  split_ifs at h with hrw hro hexec
  · rw [hrw]
    decide
  · rw [hro]
    decide
  · rw [hexec]
    decide
  · exact absurd rfl h

/-! ### The set call -/

variable {ctx : XlatCtx} {ls : List (Nat × Nat)} {s t : XlatState} {attr : U32}
  {pageAddress pagesCount smcAttributes va pa : U64} {ret : U32} {n i : Nat}

/-- **The two ways in which a set returns.** -/
theorem sprtMemoryPermAttrSet_eq_some
    (h : sprtMemoryPermAttrSet ctx s pageAddress pagesCount smcAttributes = some (t, ret)) :
    (t = s ∧ ret = sprtInvalidParameter) ∨
      (ret = sprtSuccess ∧ smcAttrToMmapAttr (smcAttributes.setWidth 32) ≠ uintMax ∧
        xlatChangeMemAttributesCtx ctx s pageAddress (sizeOfPages pagesCount)
          (smcAttrToMmapAttr (smcAttributes.setWidth 32)) = some (t, 0)) := by
  have hrej : some (s, sprtInvalidParameter) = some (t, ret) →
      t = s ∧ ret = sprtInvalidParameter := by
    intro heq
    cases heq
    exact ⟨rfl, rfl⟩
  simp only [sprtMemoryPermAttrSet] at h
  split at h
  · exact .inl (hrej h)
  rename_i hattr
  generalize hget : xlatGetMemAttributesCtx ctx s pageAddress = v at h
  cases v with
  | none =>
    cases h
  | some got =>
    cases got with
    | error => exact .inl (hrej h)
    | ok attributes =>
      dsimp only at h
      split at h
      · exact .inl (hrej h)
      obtain ⟨⟨t', ret'⟩, hcall, heq⟩ := Option.map_eq_some_iff.mp h
      cases heq
      rcases xlatChangeMemAttributesCtx_eq_some hcall with ⟨rfl, rfl⟩ | ⟨rfl, -⟩
      · exact .inl ⟨rfl, rfl⟩
      · exact .inr ⟨rfl, hattr, hcall⟩

/-- A change of no pages is an error. -/
theorem pagesCount_pos
    (h : xlatChangeMemAttributesCtx ctx s pageAddress (sizeOfPages pagesCount) attr = some (t, 0)) :
    0 < pagesCount.toNat := by
  refine pos_of_ne_zero fun hzero => ?_
  obtain rfl : pagesCount = 0 := eq_of_toNat_eq hzero
  simp only [xlatChangeMemAttributesCtx, show sizeOfPages 0 = 0 from rfl, if_true] at h
  split_ifs at h <;> cases h

section

variable (hs : VaSpace ctx) (h : TablesMap ctx ls s)
include hs h

/-- What a get returns of a page that has been changed. -/
theorem get_of_changeable (hinit : s.initialized = true) (hc : Changeable ctx s attr va pa k) :
    sprtMemoryPermAttrGet ctx s va = (mmapAttrToSmcAttr k.attributes).map fun perm =>
        if perm = uintMax then sprtInvalidParameter else sprtSuccess ||| perm := by
  rw [sprtMemoryPermAttrGet, xlatGetMemAttributesCtx, hc.memAttributes hs h hinit]
  rfl

theorem readBack_iff (hinit : s.initialized = true) (hreg : ctx.regime = .el1El0)
    (hattr : smcAttrToMmapAttr (smcAttributes.setWidth 32) ≠ uintMax)
    (hk : k.regime = ctx.regime)
    (hc : Changeable ctx s attr va pa (k.change (smcAttrToMmapAttr (smcAttributes.setWidth 32)))) :
    (sprtMemoryPermAttrGet ctx s va).any (StandsFor smcAttributes ·) = true ↔
      smcAttributes.setWidth 32 &&& sprtMemoryPermAttrMask = sprtMemoryPermAttrRo := by
  obtain ⟨hperm, hmask⟩ := smcAttrToMmapAttr_lt hattr
  rw [get_of_changeable hs h hinit hc]
  exact readBack_change k (hk.trans hreg) hperm hmask.symm

omit hs h in
theorem toNat_pageAt (h : pageAddress.toNat + i * pageSize < 2 ^ 64) :
    (pageAt pageAddress i).toNat = pageAddress.toNat + i * pageSize := by
  rw [pageAt, toNat_add, toNat_ofNat, Nat.add_mod_mod, Nat.mod_eq_of_lt h]

theorem tableWalk_page {page : U64} (hle : page ≤ ctx.vaMaxAddress) (hva : va ≤ ctx.vaMaxAddress)
    (hpage : page.toNat / pageSize = va.toNat / pageSize) :
    tableWalk ctx s page = tableWalk ctx s va := by
  have hend : s.walkEnd ctx page = s.walkEnd ctx va := by
    refine XlatState.entryFor_congr_page ctx.baseDepth_le ?_
    rw [pageOf, pageOf, hpage]
  rw [tableWalk_eq hs h hle, tableWalk_eq hs h hva, hend]

omit h in
theorem PagesInside.end_lt (hpos : 0 < n) (h : PagesInside ctx pageAddress n) :
    pageAddress.toNat + n * pageSize < 2 ^ 64 := by
  have hlast := h (n - 1) (Nat.sub_lt hpos one_pos)
  have hle := hs.le
  simp only [pageSize] at hlast ⊢
  omega

omit h in
theorem PagesInside.toNat_size (hpos : 0 < pagesCount.toNat)
    (h : PagesInside ctx pageAddress pagesCount.toNat) :
    (sizeOfPages pagesCount).toNat = pagesCount.toNat * pageSize := by
  have hend := h.end_lt hs hpos
  exact Nat.mod_eq_of_lt (lt_of_le_of_lt (Nat.le_add_left _ _) hend)

end

theorem PagesInside.pageAt_le (h : PagesInside ctx pageAddress n) (hi : i < n) :
    pageAt pageAddress i ≤ ctx.vaMaxAddress := by
  have hle := h i hi
  rw [le_def, toNat_pageAt (by omega)]
  exact hle

theorem PagesInside.address (h : PagesInside ctx pageAddress n)
    (hal : pageSize ∣ pageAddress.toNat) (hge : pageAddress.toNat ≤ va.toNat)
    (hlt : va.toNat < pageAddress.toNat + n * pageSize) :
    ∃ i < n, (pageAt pageAddress i).toNat / pageSize = va.toNat / pageSize := by
  obtain ⟨p, hp⟩ := hal
  have hi : (va.toNat - pageAddress.toNat) / pageSize < n := by
    rw [Nat.div_lt_iff_lt_mul (by decide)]
    omega
  have hle := h _ hi
  refine ⟨_, hi, ?_⟩
  rw [toNat_pageAt (by omega), hp, mul_comm pageSize p, ← Nat.add_mul,
    Nat.mul_div_cancel _ (by decide)]
  simp only [pageSize] at hp ⊢
  omega

theorem PagesAccessible.inside (h : PagesAccessible ctx s pageAddress n) :
    PagesInside ctx pageAddress n :=
  fun i hi => (h i hi).1

theorem PagesAccessible.address (hs : VaSpace ctx) (hmap : TablesMap ctx ls s)
    (hal : pageSize ∣ pageAddress.toNat) (h : PagesAccessible ctx s pageAddress n)
    (hva : va ≤ ctx.vaMaxAddress) (hge : pageAddress.toNat ≤ va.toNat)
    (hlt : va.toNat < pageAddress.toNat + n * pageSize) : AccessibleEl0 ctx s va := by
  obtain ⟨i, hi, hpage⟩ := h.inside.address hal hge hlt
  obtain ⟨hle, hwalk⟩ := (h i hi).2
  exact ⟨hva, tableWalk_page hs hmap hle hva hpage ▸ hwalk⟩

section

variable (hs : VaSpace ctx) (hpos : 0 < pagesCount.toNat)
  (h : PagesInside ctx pageAddress pagesCount.toNat)
include hs hpos h

theorem PagesInside.inRange_iff (va : U64) :
    InRange pageAddress (sizeOfPages pagesCount) va ↔ pageAddress.toNat ≤ va.toNat ∧
        va.toNat < pageAddress.toNat + pagesCount.toNat * pageSize := by
  have hend := h.end_lt hs hpos
  rw [InRange, h.toNat_size hs hpos, toNat_sub]
  omega

/-- In the address space, a page of the range is not taken for another one. -/
theorem PagesInside.aliasesHarmless (hal : pageSize ∣ pageAddress.toNat) :
    AliasesHarmless ctx s pageAddress (sizeOfPages pagesCount) attr := by
  intro i hi
  left
  rw [h.toNat_size hs hpos, Nat.mul_div_cancel _ (by decide)] at hi
  have hle := h i hi
  obtain ⟨p, hp⟩ := hal
  have hpage : (pageAt pageAddress i).toNat = pageAddress.toNat + i * pageSize :=
    toNat_pageAt (by omega)
  have hali : ctx.aliasOf (pageAt pageAddress i) = pageAt pageAddress i := by
    refine eq_of_toNat_eq ?_
    rw [ctx.toNat_aliasOf, hs.pageOf_eq (h.pageAt_le hi), hpage, hp, mul_comm pageSize p,
      ← Nat.add_mul, Nat.mul_div_cancel _ (by decide)]
  rw [hali, h.inRange_iff hs hpos, hpage]
  exact ⟨Nat.le_add_right _ _, Nat.add_lt_add_left (mul_lt_mul_of_pos_right hi (by decide)) _⟩

end

/-- What is known of a change of whole pages that succeeds. -/
structure SetPages (ctx : XlatCtx) (ls : List (Nat × Nat)) (attr : U32)
    (pageAddress pagesCount : U64)
    (s t : XlatState) : Prop where
  space : VaSpace ctx
  map : TablesMap ctx ls s
  initialized : s.initialized = true
  pos : 0 < pagesCount.toNat
  align : pageSize ∣ pageAddress.toNat
  size : pageSize ∣ (sizeOfPages pagesCount).toNat
  wx : ¬ (attr &&& mtExecuteNever = 0 ∧ attr &&& mtRw ≠ 0)
  old : ∀ i < (sizeOfPages pagesCount).toNat / pageSize, ∃ pa k,
    Changeable ctx s attr (pageAt pageAddress i) pa k
  changed : PagesChanged ctx attr ls
    (RangePages ctx pageAddress ((sizeOfPages pagesCount).toNat / pageSize)) s t

theorem setPages_of_success (hinv : XlatInv ctx (fun _ _ => True) s) (hinit : s.initialized = true)
    (h : xlatChangeMemAttributesCtx ctx s pageAddress (sizeOfPages pagesCount) attr = some (t, 0)) :
    ∃ ls, SetPages ctx ls attr pageAddress pagesCount s t := by
  obtain ⟨hs, ls, hmap⟩ := hinv.tables hinit
  obtain ⟨-, -, hal, hsize, hwx, hchk, hpg⟩ :=
    (xlatChangeMemAttributesCtx_eq_some h).resolve_left fun h => absurd h.2 (by decide)
  have hold := changeable_of_changeablePages hs hinv.mmap hmap hchk
  obtain ⟨t', ht', hchg⟩ := changePages_spec hs hinv.mmap hmap hinit hold
  rw [hpg] at ht'
  cases ht'
  exact ⟨ls, hs, hmap, hinit, pagesCount_pos h, hal, hsize, hwx, hold, hchg⟩

section

variable (h : SetPages ctx ls attr pageAddress pagesCount s t)
  (hin : PagesInside ctx pageAddress pagesCount.toNat)
include h hin

theorem SetPages.page (hi : i < pagesCount.toNat) :
    RangePages ctx pageAddress ((sizeOfPages pagesCount).toNat / pageSize)
        (pageOf ctx.baseDepth (pageAt pageAddress i)) ∧
      ∃ pa k, Changeable ctx s attr (pageAt pageAddress i) pa k := by
  have hlt : i < (sizeOfPages pagesCount).toNat / pageSize := by
    rw [hin.toNat_size h.space h.pos, Nat.mul_div_cancel _ (by decide)]
    exact hi
  exact ⟨⟨i, hlt, rfl⟩, h.old i hlt⟩

theorem SetPages.others (hva : va ≤ ctx.vaMaxAddress) (hout : ¬ (pageAddress.toNat ≤ va.toNat ∧
      va.toNat < pageAddress.toNat + pagesCount.toNat * pageSize)) :
    tableWalk ctx t va = tableWalk ctx s va := by
  have hset := (h.changed.changedAs_iff h.space h.map h.initialized h.align h.size h.wx h.old).mpr
    (hin.aliasesHarmless h.space h.pos h.align)
  exact hset.others va hva ((hin.inRange_iff h.space h.pos va).not.mpr hout)

end

/-- The tables of a partition's context follow its regions, as the SPM only adds regions
before it sets them up. -/
theorem xlatInv_of_partition {s₀ : XlatState} {ops : List XlatOp} (hreg : s₀.Registered ctx)
    (hops : ∀ op ∈ ops, OnPartition op) (hrun : run (XlatState.step ctx) s₀ ops = some s) :
    XlatInv ctx (fun _ _ => True) s := by
  refine run_invariant_along (fun s op s' hinv hon hstep => hinv.step ?_ hstep) hreg.xlatInv
    (along_of_forall hops) hrun
  cases op with
  | addDynamicRegion => exact hon.elim
  | addRegion | removeDynamicRegion | init | changeMemAttributes => exact id

/-- **Setting permissions**, in every state of a partition's context that the calls of
the SPM reach. A call that returns an error changes nothing. One that succeeds does what
it is for exactly when the attribute is read-only, and all the pages that it names are in
the address space and accessible from EL0. -/
theorem perm_attr_set_as_asked {s₀ : XlatState} {ops : List XlatOp}
    (hregime : ctx.regime = .el1El0) (hreg : s₀.Registered ctx)
    (hops : ∀ op ∈ ops, OnPartition op)
    (hrun : run (XlatState.step ctx) s₀ ops = some s) (hinit : s.initialized = true)
    (hcall : sprtMemoryPermAttrSet ctx s pageAddress pagesCount smcAttributes = some (t, ret)) :
    (ret ≠ sprtSuccess → t = s) ∧
    (ret = sprtSuccess → (PermSet ctx s t pageAddress pagesCount smcAttributes ↔
      PagesAccessible ctx s pageAddress pagesCount.toNat ∧
        smcAttributes.setWidth 32 &&& sprtMemoryPermAttrMask = sprtMemoryPermAttrRo)) := by
  have hinv := xlatInv_of_partition hreg hops hrun
  rcases sprtMemoryPermAttrSet_eq_some hcall with ⟨rfl, rfl⟩ | ⟨rfl, hattr, hch⟩
  · exact ⟨fun _ => rfl, fun h => absurd h (by decide)⟩
  refine ⟨absurd rfl, fun _ => ?_⟩
  obtain ⟨ls, hset⟩ := setPages_of_success hinv hinit hch
  have hinit' := hset.changed.regions.initialized.trans hinit
  have hread : PagesAccessible ctx s pageAddress pagesCount.toNat → ∀ i < pagesCount.toNat,
      ((sprtMemoryPermAttrGet ctx t (pageAt pageAddress i)).any (StandsFor smcAttributes ·) = true ↔
        smcAttributes.setWidth 32 &&& sprtMemoryPermAttrMask = sprtMemoryPermAttrRo) := by
    intro hacc i hi
    obtain ⟨hpage, pa, k, hck⟩ := hset.page hacc.inside hi
    exact readBack_iff hset.space hset.changed.map hinit' hregime hattr hck.desc.regime
      (hset.changed.changed hck hpage)
  constructor
  · intro h
    exact ⟨h.accessible, (hread h.accessible 0 hset.pos).mp (h.readBack 0 hset.pos)⟩
  · rintro ⟨hacc, hro⟩
    refine ⟨hacc, fun i hi => (hread hacc i hi).mpr hro, fun va hva hpriv => ?_,
      fun va hva hout => hset.others hacc.inside hva hout⟩
    refine hset.others hacc.inside hva fun hin => hpriv ?_
    exact hacc.address hset.space hset.map hset.align hva hin.1 hin.2

/-! ### Runs -/

/-- A context of the regime that partitions run in. -/
def partitionCtx : XlatCtx := { sampleCtx 0xFFFFFFFF 4 with regime := .el1El0 }

/-- A partition with one region of two pages, whose attributes may be changed. -/
def twoPages : List XlatOp :=
  [.addRegion
    { basePa := 0x10000, baseVa := 0x1000, size := 0x2000, attr := mtMemory ||| mtRw ||| mtUser,
      granularity := 0x1000 },
   .init]

/-- Both pages are made read-only. -/
theorem perm_attr_set_as_asked_read_only :
    ∃ s t, run (XlatState.step partitionCtx) (.blank partitionCtx) twoPages = some s ∧
      sprtMemoryPermAttrSet partitionCtx s 0x1000 2 0 = some (t, sprtSuccess) ∧
      PermSet partitionCtx s t 0x1000 2 0 := by
  simp only [exists_and_left]
  refine exists_some_imp (q := fun s => s.initialized = true ∧
    PagesAccessible partitionCtx s 0x1000 2 ∧
    ∃ t, sprtMemoryPermAttrSet partitionCtx s 0x1000 2 0 = some (t, sprtSuccess) ∧ True)
    (by decide +kernel) fun s hrun ⟨hinit, hacc, t, ht, _⟩ => ⟨t, ht, ?_⟩
  exact ((perm_attr_set_as_asked rfl (XlatState.blank_registered _) (by decide) hrun hinit ht).2
    rfl).mpr ⟨hacc, by decide⟩

/-- A get after a page is made writable returns 8, which a set takes for read-only. A set
of 2^52 + 1 pages succeeds on the first one. -/
theorem set_permission_not_read_back :
    ∃ s t t', run (XlatState.step partitionCtx) (.blank partitionCtx) twoPages = some s ∧
      sprtMemoryPermAttrSet partitionCtx s 0x1000 1 1 = some (t, sprtSuccess) ∧
      sprtMemoryPermAttrGet partitionCtx t 0x1000 = some 8 ∧
      ¬ PermSet partitionCtx s t 0x1000 1 1 ∧
      sprtMemoryPermAttrSet partitionCtx s 0x1000 0x10000000000001 0 = some (t', sprtSuccess) ∧
      ¬ PermSet partitionCtx s t' 0x1000 0x10000000000001 0 := by
  simp only [exists_and_left]
  refine exists_some_imp (q := fun s =>
    (∃ t, sprtMemoryPermAttrSet partitionCtx s 0x1000 1 1 = some (t, sprtSuccess) ∧
      sprtMemoryPermAttrGet partitionCtx t 0x1000 = some 8) ∧
    ∃ t', sprtMemoryPermAttrSet partitionCtx s 0x1000 0x10000000000001 0 =
      some (t', sprtSuccess) ∧ True) (by decide +kernel)
    fun s _ ⟨⟨t, ht, hget⟩, t', ht', _⟩ => ⟨t, ht, hget, fun hset => ?_, t', ht', fun hset => ?_⟩
  · have hread := hset.readBack 0 (by decide)
    rw [pageAt_zero, hget] at hread
    cases hread
  · -- The last of the pages is far above the address space.
    exact absurd (hset.accessible 0x10000000000000 (by decide)).1 (by decide)

end TrustedFirmware.Spm.MemPerm
