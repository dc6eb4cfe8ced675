import TrustedFirmware.Lib.Run
import TrustedFirmware.Xlat.Core

/-!
# Adding and removing regions (`xlat_tables_core.c`)

The checks of `mmap_add_region_check`, the sorted `mmap` array with its terminating
entry, the static and dynamic operations, and `init_xlat_tables_ctx`.

The array is a list of `mmap_num + 1` entries; `memmove` and the cursor loops are
written over list positions. A failed assertion and `panic()` are `none`. The
exception is a static region that fails its checks: `mmap_add_region_ctx` asserts
and then returns, and the model follows the return, so that it covers the builds
with and without assertions.
-/

namespace TrustedFirmware.Xlat

/-! ### The array -/

/-- `memmove` of `n` elements from position `src` to position `dst`. -/
def memmove {α : Type} (l : List α) (dst src n : Nat) : List α :=
  l.take dst ++ (l.drop src).take n ++ l.drop (dst + n)

/-- The regions before the terminating entry. -/
def liveRegions (mmap : List MmapRegion) : List MmapRegion :=
  mmap.takeWhile fun mm => mm.size ≠ 0

def XlatState.live (s : XlatState) : List MmapRegion := liveRegions s.mmap

/-- The size of an entry of the array. -/
def sizeAt (mmap : List MmapRegion) (i : Nat) : U64 := (mmap.getD i .zero).size

/-- The checks that `mmap_add_region_check` makes of a region against one that is
there. -/
def mmapRegionsCompatible (mm cursor : MmapRegion) : Bool :=
  let fullyOverlappedVa :=
    (mm.baseVa ≥ cursor.baseVa ∧ mm.endVa ≤ cursor.endVa) ∨
    (cursor.baseVa ≥ mm.baseVa ∧ cursor.endVa ≤ mm.endVa)
  if fullyOverlappedVa then
    -- Full overlaps are for static regions with the same offset, and not the same area.
    if mm.isDynamic ∨ cursor.isDynamic then false
    else if cursor.baseVa - cursor.basePa ≠ mm.baseVa - mm.basePa then false
    else if mm.baseVa = cursor.baseVa ∧ mm.size = cursor.size then false
    else true
  else
    let separatedPa := mm.endPa < cursor.basePa ∨ mm.basePa > cursor.endPa
    let separatedVa := mm.endVa < cursor.baseVa ∨ mm.baseVa > cursor.endVa
    separatedVa ∧ separatedPa

/-- `mmap_add_region_check`. -/
def mmapAddRegionCheck (ctx : XlatCtx) (s : XlatState) (mm : MmapRegion) : Int :=
  if ¬ isPageAligned mm.basePa ∨ ¬ isPageAligned mm.baseVa ∨ ¬ isPageAligned mm.size then -eInval
  else if mm.granularity.toNat ≠ xlatBlockSize 1 ∧ mm.granularity.toNat ≠ xlatBlockSize 2 ∧
      mm.granularity.toNat ≠ xlatBlockSize 3 then -eInval
  -- Check for overflows
  else if mm.basePa > mm.endPa ∨ mm.baseVa > mm.endVa then -eRange
  else if mm.endVa > ctx.vaMaxAddress then -eRange
  else if mm.endPa > ctx.paMaxAddress then -eRange
  -- Check that there is space in the ctx->mmap array
  else if sizeAt s.mmap (ctx.mmapNum - 1) ≠ 0 then -eNoMem
  -- Check for PAs and VAs overlaps with all other regions
  else if s.live.all (mmapRegionsCompatible mm) then 0
  else -ePerm

/-- The position of a new region: lower end first, then smaller size first. -/
def insertPosition (mmap : List MmapRegion) (mm : MmapRegion) : Nat :=
  let cursor := (mmap.takeWhile fun c => c.endVa < mm.endVa ∧ c.size ≠ 0).length
  cursor + ((mmap.drop cursor).takeWhile fun c =>
    c.endVa = mm.endVa ∧ c.size ≠ 0 ∧ c.size < mm.size).length

/-- Raise `max_pa` and `max_va` to the end of a new region. -/
def XlatState.raiseMax (s : XlatState) (mm : MmapRegion) : XlatState :=
  { s with
    maxPa := if mm.endPa > s.maxPa then mm.endPa else s.maxPa
    maxVa := if mm.endVa > s.maxVa then mm.endVa else s.maxVa }

/-! ### Operations -/

/-- The number of levels below the initial lookup level. -/
def XlatCtx.baseDepth (ctx : XlatCtx) : Nat := xlatTableLevelMax - ctx.baseLevel

/-- Map a region from the base table. -/
def mapRegion (ctx : XlatCtx) (s : XlatState) (mm : MmapRegion) : Option (XlatState × Nat) :=
  xlatTablesMapRegion ctx mm ctx.baseDepth s 0 .base ctx.baseTableEntries

/-- Unmap a region from the base table. -/
def unmapRegion (ctx : XlatCtx) (s : XlatState) (mm : MmapRegion) : Option XlatState :=
  xlatTablesUnmapRegion ctx mm ctx.baseDepth s 0 .base ctx.baseTableEntries

/-- `mmap_add_region_ctx`. -/
def mmapAddRegionCtx (ctx : XlatCtx) (s : XlatState) (mm : MmapRegion) : Option XlatState :=
  if mm.size = 0 then some s
  -- Static regions must be added before initializing the xlat tables.
  else if s.initialized then none
  else if mmapAddRegionCheck ctx s mm ≠ 0 then some s
  else
    let cursor := insertPosition s.mmap mm
    let last := min s.live.length ctx.mmapNum
    if sizeAt s.mmap last ≠ 0 then none
    else
      let moved := memmove s.mmap (cursor + 1) cursor (last - cursor)
      -- Check we haven't lost the empty sentinel from the end of the array.
      if sizeAt moved ctx.mmapNum ≠ 0 then none
      else some ({ s with mmap := moved.set cursor mm }.raiseMax mm)

/-- The region that takes back what a failed mapping of `mm` did below `endVa`. -/
def undoRegion (mm : MmapRegion) (endVa : Nat) : MmapRegion where
  basePa := 0
  baseVa := mm.baseVa
  size := BitVec.ofNat 64 endVa - mm.baseVa
  attr := 0
  granularity := 0

/-- The part of `mmap_add_dynamic_region_ctx` that follows the insertion of `mm` at
`cursor`. -/
def mapDynamicRegion (ctx : XlatCtx) (s : XlatState) (mm : MmapRegion) (cursor : Nat) :
    Option (XlatState × Int) :=
  if s.initialized then
    match mapRegion ctx s mm with
    | none => none
    | some (s, endVa) =>
      if endVa ≠ mm.endVa.toNat then
        -- Failed to map, remove mmap entry, unmap and return error.
        let s := { s with mmap := memmove s.mmap cursor (cursor + 1) (ctx.mmapNum - cursor) }
        if mm.baseVa.toNat ≥ endVa then some (s, -eNoMem)
        else (unmapRegion ctx s (undoRegion mm endVa)).map fun s => (s, -eNoMem)
      else some (s.raiseMax mm, 0)
  else some (s.raiseMax mm, 0)

/-- `mmap_add_dynamic_region_ctx`. -/
def mmapAddDynamicRegionCtx (ctx : XlatCtx) (s : XlatState) (mm : MmapRegion) :
    Option (XlatState × Int) :=
  if mm.size = 0 then some (s, 0)
  else
    let mm := { mm with attr := mm.attr ||| mtDynamic }
    let ret := mmapAddRegionCheck ctx s mm
    if ret ≠ 0 then some (s, ret)
    else
      let cursor := insertPosition s.mmap mm
      let moved := memmove s.mmap (cursor + 1) cursor (ctx.mmapNum - cursor)
      -- Check we haven't lost the empty sentinal from the end of the array.
      if sizeAt moved ctx.mmapNum ≠ 0 then none
      else mapDynamicRegion ctx { s with mmap := moved.set cursor mm } mm cursor

/-- The largest value of `f` over the regions of the array, and 0. -/
def maxOver (f : MmapRegion → U64) (mmap : List MmapRegion) : U64 :=
  (liveRegions mmap).foldl (fun m mm => if f mm > m then f mm else m) 0

/-- `mmap_remove_dynamic_region_ctx`. -/
def mmapRemoveDynamicRegionCtx (ctx : XlatCtx) (s : XlatState) (baseVa size : U64) :
    Option (XlatState × Int) :=
  -- Check sanity of mmap array.
  if sizeAt s.mmap ctx.mmapNum ≠ 0 then none
  else
    let cursor := (s.live.takeWhile fun mm => ¬ (mm.baseVa = baseVa ∧ mm.size = size)).length
    let mm := s.mmap.getD cursor .zero
    -- Check that the region was found
    if mm.size = 0 then some (s, -eInval)
    -- If the region is static it can't be removed
    else if ¬ mm.isDynamic then some (s, -ePerm)
    else
      (if s.initialized then unmapRegion ctx s mm else some s).map fun s =>
        let mmap := memmove s.mmap cursor (cursor + 1) (ctx.mmapNum - cursor)
        ({ s with
          mmap := mmap
          maxVa := if mm.endVa = s.maxVa then maxOver MmapRegion.endVa mmap else s.maxVa
          maxPa := if mm.endPa = s.maxPa then maxOver MmapRegion.endPa mmap else s.maxPa }, 0)

/-- The state with all tables and counts cleared. -/
def XlatState.cleared (ctx : XlatCtx) (s : XlatState) : XlatState :=
  { s with
    baseTable := fun i => if i < ctx.baseTableEntries then invalidDesc else s.baseTable i
    tablesMappedRegions := fun j => if j < ctx.tablesNum then 0 else s.tablesMappedRegions j
    tables := fun j i =>
      if j < ctx.tablesNum ∧ i < xlatTableEntries then invalidDesc else s.tables j i }

/-- Map regions in turn; one that does not fit is a `panic()`. -/
def mapRegions (ctx : XlatCtx) : XlatState → List MmapRegion → Option XlatState
  | s, [] => some s
  | s, mm :: mms =>
    match mapRegion ctx s mm with
    | none => none
    | some (s, endVa) => if endVa ≠ mm.endVa.toNat then none else mapRegions ctx s mms

/-- `xlat_get_min_virt_addr_space_size`. -/
def XlatCtx.minVirtAddrSpaceSize (ctx : XlatCtx) : Nat := if ctx.ttst then 2 ^ 16 else 2 ^ 25

/-- The assertions of `init_xlat_tables_ctx` on the virtual address space. -/
def XlatCtx.vaSpaceOk (ctx : XlatCtx) : Bool :=
  ctx.vaMaxAddress.toNat ≥ ctx.minVirtAddrSpaceSize - 1 ∧ ctx.vaMaxAddress.toNat ≤ 2 ^ 48 - 1 ∧
    (ctx.vaMaxAddress + 1) &&& ctx.vaMaxAddress = 0

/-- `init_xlat_tables_ctx`. -/
def initXlatTablesCtx (ctx : XlatCtx) (s : XlatState) : Option XlatState :=
  if s.initialized ∨ ¬ ctx.vaSpaceOk then none
  else
    (mapRegions ctx (s.cleared ctx) s.live).bind fun s =>
      if s.maxVa ≤ ctx.vaMaxAddress ∧ s.maxPa ≤ ctx.paMaxAddress then
        some { s with initialized := true }
      else none

/-- A context as it is registered: no regions, not initialised. What is in the
tables does not matter before `init_xlat_tables_ctx`. -/
structure XlatState.Registered (ctx : XlatCtx) (s : XlatState) : Prop where
  mmap : s.mmap = List.replicate (ctx.mmapNum + 1) .zero
  maxPa : s.maxPa = 0
  maxVa : s.maxVa = 0
  initialized : s.initialized = false

/-- A registered context in memory that is all zero. -/
def XlatState.blank (ctx : XlatCtx) : XlatState where
  mmap := List.replicate (ctx.mmapNum + 1) .zero
  tables _ _ := invalidDesc
  tablesMappedRegions _ := 0
  baseTable _ := invalidDesc
  maxPa := 0
  maxVa := 0
  initialized := false

theorem XlatState.blank_registered (ctx : XlatCtx) : (XlatState.blank ctx).Registered ctx :=
  ⟨rfl, rfl, rfl, rfl⟩

end TrustedFirmware.Xlat
