import TrustedFirmware.Spm.MemPerm

/-!
# The memory attribute calls of the MM partition (`spm_xlat.c`)

On the tables that `spm_sp_setup` makes: with the exception vectors of S-EL1, which are
privileged, and the regions of the platform.

A set does not check that the pages are the partition's own, that their number times the
page size fits in 64 bits, or that the access is not the reserved one
(`vectors_made_writable`). It does what it should exactly when all three hold, and if they
hold for all sets then no page that was privileged after the setup ever changes
(`memory_attributes_set_iff`).

Assertions are compiled out. A call holds `mem_attr_smc_lock` from the first access to the
tables to the last, so each is one step. Return values are modelled by their 32 bits.
-/

namespace TrustedFirmware.Spm.MemAttr

open Lib Xlat List Option
open Spm.MemPerm (sizeOfPages unprivileged AccessibleEl0 PagesInside SetPages
  setPages_of_success tableWalk_page partitionCtx)

/-! ### The calls -/

def spMemoryAttributesAccessNoaccess : U32 := 0
def spMemoryAttributesAccessRw : U32 := 1
def spMemoryAttributesAccessRo : U32 := 3
def spMemoryAttributesAccessMask : U32 := 3
def spMemoryAttributesAccessShift : Nat := 0
def spMemoryAttributesNonExec : U32 := 1 <<< 2

def spmSuccess : U32 := 0
def spmNotSupported : U32 := -1
def spmInvalidParameter : U32 := -2

/-- `sp_state_t`. -/
inductive SpState
  | reset
  | idle
  | busy
  deriving DecidableEq, Repr

/-- `smc_attr_to_mmap_attr`. `MT_RO`, `MT_PRIVILEGED` and `MT_EXECUTE` are 0. -/
def smcAttrToMmapAttr (attributes : U32) : U32 :=
  let access := (attributes &&& spMemoryAttributesAccessMask) >>> spMemoryAttributesAccessShift
  let tfAttr :=
    if access = spMemoryAttributesAccessRw then mtRw ||| mtUser
    else if access = spMemoryAttributesAccessRo then mtUser
    -- The reserved value is taken for no access.
    else 0
  if attributes &&& spMemoryAttributesNonExec = 0 then tfAttr else tfAttr ||| mtExecuteNever

/-- `smc_mmap_to_smc_attr`. -/
def smcMmapToSmcAttr (attr : U32) : U32 :=
  let dataAccess :=
    if attr &&& mtUser = 0 then spMemoryAttributesAccessNoaccess
    else if attr &&& mtRw ≠ 0 then spMemoryAttributesAccessRw
    else spMemoryAttributesAccessRo
  let smcAttr := (dataAccess &&& spMemoryAttributesAccessMask) <<< spMemoryAttributesAccessShift
  if attr &&& mtExecuteNever ≠ 0 then smcAttr ||| spMemoryAttributesNonExec else smcAttr

/-- `spm_memory_attributes_get_smc_handler`. -/
def spmMemoryAttributesGetSmcHandler (ctx : XlatCtx) (s : XlatState) (baseVa : U64) : Option U32 :=
  (xlatGetMemAttributesCtx ctx s baseVa).map fun
    | .ok attributes => smcMmapToSmcAttr attributes
    | .error _ => spmInvalidParameter

/-- `spm_memory_attributes_set_smc_handler`. -/
def spmMemoryAttributesSetSmcHandler (ctx : XlatCtx) (s : XlatState)
    (pageAddress pagesCount smcAttributes : U64) : Option (XlatState × U32) :=
  (xlatChangeMemAttributesCtx ctx s pageAddress (sizeOfPages pagesCount)
    (smcAttrToMmapAttr (smcAttributes.setWidth 32))).map fun r =>
      (r.1, if r.2 = 0 then spmSuccess else spmInvalidParameter)

/-- The calls of the partition. -/
inductive Call
  | get (baseVa : U64)
  | set (pageAddress pagesCount smcAttributes : U64)

/-- The two calls in `spm_smc_handler`, which are available at boot time only. -/
def spmSmcHandler (ctx : XlatCtx) (state : SpState) (s : XlatState) (call : Call) :
    Option (XlatState × U32) :=
  if state ≠ .reset then some (s, spmNotSupported)
  else
    match call with
    | .get baseVa => (spmMemoryAttributesGetSmcHandler ctx s baseVa).map fun ret => (s, ret)
    | .set pageAddress pagesCount smcAttributes =>
      spmMemoryAttributesSetSmcHandler ctx s pageAddress pagesCount smcAttributes

/-- One call, in a state of the partition. -/
def smcStep (ctx : XlatCtx) (s : XlatState) (e : SpState × Call) : Option XlatState :=
  (spmSmcHandler ctx e.1 s e.2).map Prod.fst

/-- What `spm_sp_setup` does with the tables: the vectors are `MT_CODE`, secure and
privileged, and the array of the platform ends with a granularity of 0. -/
def spmSpSetup (shimStart shimSize : U64) (mmap : List MmapRegion) : List XlatOp :=
  .addRegion
    { basePa := shimStart, baseVa := shimStart, size := shimSize, attr := mtMemory,
      granularity := BitVec.ofNat 64 (xlatBlockSize minLvlBlockDesc) } ::
    (mmap.takeWhile fun mm => mm.granularity ≠ 0).map .addRegion ++ [.init]

/-! ### What a set is for -/

/-- The address is mapped for S-EL1 only. -/
def PrivilegedOnly (ctx : XlatCtx) (s : XlatState) (va : U64) : Prop :=
  ∃ walk, tableWalk ctx s va = some walk ∧ walk ≠ .invalid ∧ unprivileged walk = false
  deriving Decidable

/-- The access and the execution permission in the attributes of a call. -/
def attributesOf (smcAttributes : U64) : U32 :=
  smcAttributes.setWidth 32 &&& (spMemoryAttributesAccessMask ||| spMemoryAttributesNonExec)

/-- **What a successful set is for**, in a partition that was set up as `s₀`: the pages it
names are pages of the address space and a get returns what was set, no other page
changes, and none that was privileged after the setup. -/
structure AttributesSet (ctx : XlatCtx) (s₀ s t : XlatState)
    (pageAddress pagesCount smcAttributes : U64) : Prop where
  inside : PagesInside ctx pageAddress pagesCount.toNat
  readBack : ∀ i < pagesCount.toNat, spmMemoryAttributesGetSmcHandler ctx t (pageAt pageAddress i) =
    some (attributesOf smcAttributes)
  outside : ∀ va ≤ ctx.vaMaxAddress, ¬ (pageAddress.toNat ≤ va.toNat ∧
      va.toNat < pageAddress.toNat + pagesCount.toNat * pageSize) →
    tableWalk ctx t va = tableWalk ctx s va
  privileged : ∀ va ≤ ctx.vaMaxAddress, PrivilegedOnly ctx s₀ va →
    tableWalk ctx t va = tableWalk ctx s va

/-- The page has the attributes already. -/
def HasAttributes (ctx : XlatCtx) (s : XlatState) (va : U64) (attr : U32) : Prop :=
  ∃ old, xlatGetMemAttributesCtx ctx s va = some (.ok old) ∧
    old &&& mtReported ctx.regime = attr &&& mtReported ctx.regime

/-- The pages are in the address space, without a wrap, the access is not the reserved one,
and a page that was privileged after the setup has the attributes already. -/
structure SafeSet (ctx : XlatCtx) (s₀ s : XlatState) (pageAddress pagesCount smcAttributes : U64) :
    Prop where
  inside : PagesInside ctx pageAddress pagesCount.toNat
  access : smcAttributes.setWidth 32 &&& spMemoryAttributesAccessMask ≠ 2
  privileged : ∀ i < pagesCount.toNat, PrivilegedOnly ctx s₀ (pageAt pageAddress i) →
    HasAttributes ctx s (pageAt pageAddress i) (smcAttrToMmapAttr (smcAttributes.setWidth 32))

/-- A set in a call is safe. -/
def SafeCall (ctx : XlatCtx) (s₀ s : XlatState) : SpState × Call → Prop
  | (_, .get _) => True
  | (_, .set pageAddress pagesCount smcAttributes) =>
    SafeSet ctx s₀ s pageAddress pagesCount smcAttributes

/-! ### Encodings -/

variable {k : DescKind} {attributes : U32} {smcAttributes : U64}

/-- A get returns what was set unless the access is the reserved one. -/
theorem smcMmapToSmcAttr_change (hreg : k.regime = .el1El0) (hlt : attributes < 8)
    (hwx : ¬ (smcAttrToMmapAttr attributes &&& mtExecuteNever = 0 ∧
      smcAttrToMmapAttr attributes &&& mtRw ≠ 0))
    (hdev : k.type = .device → smcAttrToMmapAttr attributes &&& mtExecuteNever ≠ 0) :
    smcMmapToSmcAttr (k.change (smcAttrToMmapAttr attributes)).attributes = attributes ↔
      attributes &&& spMemoryAttributesAccessMask ≠ 2 := by
  have hcas : attributes = 0 ∨ attributes = 1 ∨ attributes = 2 ∨ attributes = 3 ∨
      attributes = 4 ∨ attributes = 5 ∨ attributes = 6 ∨ attributes = 7 := by bv_omega
  revert k
  rcases hcas with rfl | rfl | rfl | rfl | rfl | rfl | rfl | rfl
  · decide +kernel
  · exact absurd hwx (by decide)
  all_goals decide +kernel

theorem attributesOf_lt (smcAttributes : U64) : attributesOf smcAttributes < 8 := by
  exact Nat.and_le_right.trans_lt (by decide)

theorem attributesOf_and (smcAttributes : U64) :
    attributesOf smcAttributes &&& spMemoryAttributesAccessMask =
      smcAttributes.setWidth 32 &&& spMemoryAttributesAccessMask := by
  rw [attributesOf, BitVec.and_assoc]
  rfl

/-- The other bits of the attributes are ignored. -/
theorem smcAttrToMmapAttr_attributesOf (smcAttributes : U64) :
    smcAttrToMmapAttr (attributesOf smcAttributes) =
      smcAttrToMmapAttr (smcAttributes.setWidth 32) := by
  have hexec : attributesOf smcAttributes &&& spMemoryAttributesNonExec =
      smcAttributes.setWidth 32 &&& spMemoryAttributesNonExec := by
    rw [attributesOf, BitVec.and_assoc]
    rfl
  simp [smcAttrToMmapAttr, attributesOf_and, hexec]

/-! ### What a set does -/

variable {ls₀ : List (Nat × Nat)}

variable {ctx : XlatCtx} {ls : List (Nat × Nat)} {s₀ s t : XlatState} {state : SpState}
  {pageAddress pagesCount va : U64} {ret : U32} {attr : U32}

/-- **The two ways in which a set returns.** -/
theorem spmSmcHandler_set
    (h : spmSmcHandler ctx state s (.set pageAddress pagesCount smcAttributes) = some (t, ret)) :
    (t = s ∧ ret ≠ spmSuccess) ∨
      (ret = spmSuccess ∧ xlatChangeMemAttributesCtx ctx s pageAddress (sizeOfPages pagesCount)
        (smcAttrToMmapAttr (smcAttributes.setWidth 32)) = some (t, 0)) := by
  unfold spmSmcHandler at h
  split at h
  · cases h
    exact .inl ⟨rfl, by decide⟩
  obtain ⟨⟨t', ret'⟩, hcall, heq⟩ := map_eq_some_iff.mp h
  cases heq
  rcases xlatChangeMemAttributesCtx_eq_some hcall with ⟨rfl, rfl⟩ | ⟨rfl, -⟩
  · exact .inl ⟨rfl, show spmInvalidParameter ≠ spmSuccess by decide⟩
  · exact .inr ⟨rfl, hcall⟩

/-- What a get returns of a page that has been set. -/
theorem readBack_iff
    (h : SetPages ctx ls (smcAttrToMmapAttr (smcAttributes.setWidth 32)) pageAddress pagesCount s t)
    (hreg : ctx.regime = .el1El0)
    (hin : PagesInside ctx pageAddress pagesCount.toNat) {i : Nat} (hi : i < pagesCount.toNat) :
    spmMemoryAttributesGetSmcHandler ctx t (pageAt pageAddress i) =
        some (attributesOf smcAttributes) ↔
      smcAttributes.setWidth 32 &&& spMemoryAttributesAccessMask ≠ 2 := by
  obtain ⟨hpage, pa, k, hck⟩ := h.page hin hi
  have hget := (h.changed.changed hck hpage).memAttributes h.space h.changed.map
    (h.changed.regions.initialized.trans h.initialized)
  have hwx := h.wx
  have hdev := hck.device
  rw [spmMemoryAttributesGetSmcHandler, xlatGetMemAttributesCtx, hget, ← attributesOf_and]
  rw [← smcAttrToMmapAttr_attributesOf] at hwx hdev ⊢
  rw [← smcMmapToSmcAttr_change (hck.desc.regime.trans hreg) (attributesOf_lt smcAttributes) hwx
    hdev]
  exact some_inj

/-- The addresses of a page translate as before when the page had the attributes. -/
theorem tableWalk_eq_iff (h : SetPages ctx ls attr pageAddress pagesCount s t)
    (hin : PagesInside ctx pageAddress pagesCount.toNat) {i : Nat} (hi : i < pagesCount.toNat) :
    tableWalk ctx t (pageAt pageAddress i) = tableWalk ctx s (pageAt pageAddress i) ↔
      HasAttributes ctx s (pageAt pageAddress i) attr := by
  obtain ⟨hpage, pa, k, hck⟩ := h.page hin hi
  rw [h.changed.tableWalk_eq_iff h.space h.map h.wx hck hpage (hin.pageAt_le hi) rfl, HasAttributes,
    xlatGetMemAttributesCtx, hck.memAttributes h.space h.map h.initialized]
  constructor
  · exact fun hattr => ⟨k.attributes, rfl, hattr⟩
  · rintro ⟨old, hold, hattr⟩
    obtain rfl := Except.ok.inj (some.inj hold)
    exact hattr

/-- **A set that succeeds** does what it is for exactly when it is safe. -/
theorem attributesSet_iff (h : SetPages ctx ls (smcAttrToMmapAttr (smcAttributes.setWidth 32))
      pageAddress pagesCount s t) (hreg : ctx.regime = .el1El0)
    (hmap₀ : TablesMap ctx ls₀ s₀) :
    AttributesSet ctx s₀ s t pageAddress pagesCount smcAttributes ↔
      SafeSet ctx s₀ s pageAddress pagesCount smcAttributes := by
  constructor
  · intro hset
    refine ⟨hset.inside, (readBack_iff h hreg hset.inside h.pos).mp (hset.readBack 0 h.pos),
      fun i hi hpriv => ?_⟩
    exact (tableWalk_eq_iff h hset.inside hi).mp
      (hset.privileged _ (hset.inside.pageAt_le hi) hpriv)
  · intro hsafe
    have hin := hsafe.inside
    refine ⟨hin, fun i hi => (readBack_iff h hreg hin hi).mpr hsafe.access,
      fun va hva hout => h.others hin hva hout, fun va hva hpriv => ?_⟩
    by_cases hrg : pageAddress.toNat ≤ va.toNat ∧
        va.toNat < pageAddress.toNat + pagesCount.toNat * pageSize
    · obtain ⟨i, hi, hpage⟩ := hin.address h.align hrg.1 hrg.2
      have hle := hin.pageAt_le hi
      have hwalk := (tableWalk_eq_iff h hin hi).mpr (hsafe.privileged i hi (by
        rw [PrivilegedOnly, tableWalk_page h.space hmap₀ hle hva hpage]
        exact hpriv))
      rwa [tableWalk_page h.space h.changed.map hle hva hpage,
        tableWalk_page h.space h.map hle hva hpage] at hwalk
    · exact h.others hin hva hrg

/-! ### Runs -/

variable {e : SpState × Call}

/-- The tables follow the regions. -/
def TablesOk (ctx : XlatCtx) (s : XlatState) : Prop :=
  XlatInv ctx (fun _ _ => True) s ∧ s.initialized = true

/-- A call changes nothing, or is a set that succeeds. -/
theorem smcStep_eq_some (h : smcStep ctx s e = some t) :
    t = s ∨ ∃ state pageAddress pagesCount smcAttributes,
      e = (state, .set pageAddress pagesCount smcAttributes) ∧
      xlatChangeMemAttributesCtx ctx s pageAddress (sizeOfPages pagesCount)
        (smcAttrToMmapAttr (smcAttributes.setWidth 32)) = some (t, 0) := by
  obtain ⟨⟨t', ret⟩, hcall, rfl⟩ := map_eq_some_iff.mp h
  obtain ⟨state, baseVa | ⟨pageAddress, pagesCount, smcAttributes⟩⟩ := e
  · left
    simp only [spmSmcHandler] at hcall
    split at hcall
    · cases hcall
      rfl
    · obtain ⟨ret', -, heq⟩ := map_eq_some_iff.mp hcall
      cases heq
      rfl
  · rcases spmSmcHandler_set hcall with ⟨rfl, -⟩ | ⟨-, hch⟩
    · exact .inl rfl
    · exact .inr ⟨state, pageAddress, pagesCount, smcAttributes, rfl, hch⟩

theorem TablesOk.step (h : TablesOk ctx s) (hstep : smcStep ctx s e = some t) : TablesOk ctx t := by
  rcases smcStep_eq_some hstep with rfl | ⟨state, pageAddress, pagesCount, attributes, rfl, hch⟩
  · exact h
  · obtain ⟨ls, hset⟩ := setPages_of_success h.1 h.2 hch
    have hop : s.step ctx (.changeMemAttributes pageAddress (sizeOfPages pagesCount)
        (smcAttrToMmapAttr (attributes.setWidth 32))) = some t :=
      map_eq_some_iff.mpr ⟨_, hch, rfl⟩
    exact ⟨h.1.step id hop, hset.changed.regions.initialized.trans h.2⟩

/-- A safe call changes no page that was privileged after the setup. -/
theorem TablesOk.privileged_kept {va : U64}
    (h : TablesOk ctx s) (hreg : ctx.regime = .el1El0) (hmap₀ : TablesMap ctx ls₀ s₀)
    (hsafe : SafeCall ctx s₀ s e) (hstep : smcStep ctx s e = some t) (hva : va ≤ ctx.vaMaxAddress)
    (hpriv : PrivilegedOnly ctx s₀ va) : tableWalk ctx t va = tableWalk ctx s va := by
  rcases smcStep_eq_some hstep with rfl | ⟨state, pageAddress, pagesCount, attributes, rfl, hch⟩
  · rfl
  · obtain ⟨ls, hset⟩ := setPages_of_success h.1 h.2 hch
    exact ((attributesSet_iff hset hreg hmap₀).mpr hsafe).privileged va hva hpriv

theorem TablesOk.of_setup {shimStart shimSize : U64} {mmap : List MmapRegion}
    (hreg : s.Registered ctx)
    (h : run (XlatState.step ctx) s (spmSpSetup shimStart shimSize mmap) = some s₀) :
    TablesOk ctx s₀ := by
  refine ⟨MemPerm.xlatInv_of_partition hreg (fun op hop => ?_) h, ?_⟩
  · rw [spmSpSetup, List.cons_append, List.mem_cons, List.mem_append, List.mem_map,
      List.mem_singleton] at hop
    rcases hop with rfl | ⟨mm, -, rfl⟩ | rfl <;> trivial
  · rw [spmSpSetup, run_append] at h
    obtain ⟨t, -, hinit⟩ := bind_eq_some_iff.mp h
    obtain ⟨u, hinit, hnil⟩ := run_cons hinit
    cases hnil
    exact (initXlatTablesCtx_eq_some hinit).2

/-- **Setting attributes**, after the setup and any calls of the partition. A set that does
not succeed changes nothing. One that succeeds does what it is for exactly when its pages
are in the address space, without a wrap of their size, its access is not the reserved one
and the pages that were privileged after the setup have the attributes already. If all the
sets before are such, then no page that was privileged after the setup has changed. -/
theorem memory_attributes_set_iff {shimStart shimSize : U64} {mmap : List MmapRegion}
    {calls : List (SpState × Call)} {blank : XlatState} (hregime : ctx.regime = .el1El0)
    (hreg : blank.Registered ctx)
    (hsetup : run (XlatState.step ctx) blank (spmSpSetup shimStart shimSize mmap) = some s₀)
    (hrun : run (smcStep ctx) s₀ calls = some s) :
    (∀ state pageAddress pagesCount smcAttributes t ret,
      spmSmcHandler ctx state s (.set pageAddress pagesCount smcAttributes) = some (t, ret) →
      (ret ≠ spmSuccess → t = s) ∧
      (ret = spmSuccess → (AttributesSet ctx s₀ s t pageAddress pagesCount smcAttributes ↔
        SafeSet ctx s₀ s pageAddress pagesCount smcAttributes))) ∧
    (Along (smcStep ctx) (SafeCall ctx s₀) s₀ calls → ∀ va ≤ ctx.vaMaxAddress,
      PrivilegedOnly ctx s₀ va → tableWalk ctx s va = tableWalk ctx s₀ va) := by
  have hs₀ := TablesOk.of_setup hreg hsetup
  have hs : TablesOk ctx s := run_invariant (fun _ _ _ => TablesOk.step) hs₀ hrun
  obtain ⟨-, ls₀, hmap₀⟩ := hs₀.1.tables hs₀.2
  refine ⟨fun state pageAddress pagesCount smcAttributes t ret hcall => ?_, fun hal => ?_⟩
  · rcases spmSmcHandler_set hcall with ⟨rfl, hret⟩ | ⟨rfl, hch⟩
    · exact ⟨fun _ => rfl, fun h => absurd h hret⟩
    · obtain ⟨ls, hset⟩ := setPages_of_success hs.1 hs.2 hch
      exact ⟨absurd rfl, fun _ => attributesSet_iff hset hregime hmap₀⟩
  · -- Each call of the run leaves the privileged pages alone.
    refine (run_invariant_along (fun t e t' (ht : TablesOk ctx t ∧ ∀ va ≤ ctx.vaMaxAddress,
      PrivilegedOnly ctx s₀ va → tableWalk ctx t va = tableWalk ctx s₀ va) hsafe hstep => ?_)
      ⟨hs₀, fun _ _ _ => rfl⟩ hal hrun).2
    refine ⟨ht.1.step hstep, fun va hva hpriv => ?_⟩
    rw [← ht.2 va hva hpriv]
    exact ht.1.privileged_kept hregime hmap₀ hsafe hstep hva hpriv

/-- The vectors at `0x5000`, and two pages of the partition. -/
def sampleSetup : List XlatOp := spmSpSetup 0x5000 0x1000
  [⟨0x10000, 0x1000, 0x2000, mtMemory ||| mtRw ||| mtExecuteNever ||| mtUser, 0x1000⟩]

/-- The pages of the partition are made read-only, and the vectors stay as they are. -/
theorem memory_attributes_set_iff_own :
    ∃ s₀, run (XlatState.step partitionCtx) (.blank partitionCtx) sampleSetup =
        some s₀ ∧ PrivilegedOnly partitionCtx s₀ 0x5000 ∧
      ∃ s, spmSmcHandler partitionCtx .reset s₀ (.set 0x1000 2 7) = some (s, spmSuccess) ∧
        AttributesSet partitionCtx s₀ s₀ s 0x1000 2 7 ∧
        tableWalk partitionCtx s 0x5000 = tableWalk partitionCtx s₀ 0x5000 := by
  refine exists_some_imp (q := fun s₀ => PrivilegedOnly partitionCtx s₀ 0x5000 ∧
    (∀ i < 2, ¬ PrivilegedOnly partitionCtx s₀ (pageAt 0x1000 i)) ∧
    ∃ s, spmSmcHandler partitionCtx .reset s₀ (.set 0x1000 2 7) = some (s, spmSuccess) ∧
      True) (by decide +kernel) fun s₀ hse ⟨hpriv, hown, s, hset, _⟩ => ⟨hpriv, s, hset, ?_⟩
  have hsafe : SafeSet partitionCtx s₀ s₀ 0x1000 2 7 :=
    ⟨by decide, by decide, fun i hi hyes => absurd hyes (hown i hi)⟩
  have hrun : run (smcStep partitionCtx) s₀ [(.reset, .set 0x1000 2 7)] = some s := by
    rw [run, smcStep, hset]
    rfl
  have hreg := XlatState.blank_registered partitionCtx
  refine ⟨(((memory_attributes_set_iff rfl hreg hse (run_nil s₀)).1 _ _ _ _ _ _ hset).2
    rfl).mpr hsafe, ?_⟩
  exact (memory_attributes_set_iff rfl hreg hse hrun).2 ⟨hsafe, fun _ _ => trivial⟩ 0x5000
    (by decide) hpriv

/-- **The vectors are made writable** from S-EL0. A set of 2^52 + 1 pages succeeds on the
first one, and after a set with the reserved access a get returns no access. -/
theorem vectors_made_writable :
    ∃ s₀, run (XlatState.step partitionCtx) (.blank partitionCtx) sampleSetup = some s₀ ∧
      PrivilegedOnly partitionCtx s₀ 0x5000 ∧
      (∃ s, spmSmcHandler partitionCtx .reset s₀ (.set 0x5000 1 5) = some (s, spmSuccess) ∧
        AccessibleEl0 partitionCtx s 0x5000 ∧
        spmMemoryAttributesGetSmcHandler partitionCtx s 0x5000 = some 5) ∧
      (∃ s, spmSmcHandler partitionCtx .reset s₀ (.set 0x1000 0x10000000000001 7) =
          some (s, spmSuccess) ∧
        ¬ PagesInside partitionCtx 0x1000 0x10000000000001) ∧
      ∃ s, spmSmcHandler partitionCtx .reset s₀ (.set 0x1000 1 2) = some (s, spmSuccess) ∧
        spmMemoryAttributesGetSmcHandler partitionCtx s 0x1000 = some 0 := by
  have hwrap : ¬ PagesInside partitionCtx 0x1000 0x10000000000001 := fun h =>
    absurd (h 0x10000000000000 (by decide)) (by decide)
  simp only [hwrap, not_false_eq_true]
  decide +kernel

end TrustedFirmware.Spm.MemAttr
