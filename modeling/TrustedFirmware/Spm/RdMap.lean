import Mathlib.Data.List.Pairwise
import TrustedFirmware.Xlat.ChangeAttrs

/-!
# Mapping the memory regions of secure partitions

`spm_xlat.c`, `object_pool.h`, and the loops of `spm_main.c` and `spm_setup.c` around
them: for each partition of the package a translation context is set up, its resource
description is walked, and each memory region is mapped to a part of the image, to
memory from the heap of the SPM, or, for a device, to the address that it has.

`none` is a `panic()`. The pools of translation contexts, `mmap` arrays and tables have
what one partition needs, times the number of partitions, so partition `i` gets the
`i`-th part of each. The log of mappings and copies is not part of the code's state.
-/

namespace TrustedFirmware.Spm.RdMap

open Lib Lib.Radix Xlat List Option Prod

/-! ### Pools -/

/-- `struct object_pool`. What is allocated is never more than there is. -/
structure ObjectPool where
  objSize : U64
  capacity : U64
  objects : U64
  used : U64
  used_le : used ≤ capacity

/-- `pool_alloc_n`: the pool, and the address of the objects. -/
def poolAllocN (pool : ObjectPool) (count : U64) : Option (ObjectPool × U64) :=
  if h : pool.used + count > pool.capacity then none
  else
    some ({ pool with used := pool.used + count, used_le := BitVec.not_lt.mp h },
      pool.objects + pool.objSize * pool.used)

/-- What a call that returns has done. -/
theorem poolAllocN_eq_some {pool pool' : ObjectPool} {count obj : U64}
    (h : poolAllocN pool count = some (pool', obj)) :
    obj = pool.objects + pool.objSize * pool.used ∧ pool'.objSize = pool.objSize ∧
      pool'.capacity = pool.capacity ∧ pool'.objects = pool.objects ∧
      pool'.used = pool.used + count := by
  unfold poolAllocN at h
  split_ifs at h
  cases h
  exact ⟨rfl, rfl, rfl, rfl, rfl⟩

/-! ### Resource descriptions -/

/-- The memory types of a resource description. -/
inductive RdMemType
  | device
  | normalCode
  | normalData
  | normalBss
  | normalRodata
  | normalSpmSpSharedMem
  | normalClientSharedMem
  | normalMiscellaneous
  deriving DecidableEq, Repr

/-- The memory type in the attributes of a region, `attr & RD_MEM_MASK`; there are types
that are not in use. -/
def rdMemType (attr : U32) : Option RdMemType :=
  match (attr &&& 15).toNat with
  | 0 => some .device
  | 1 => some .normalCode
  | 2 => some .normalData
  | 3 => some .normalBss
  | 4 => some .normalRodata
  | 5 => some .normalSpmSpSharedMem
  | 6 => some .normalClientSharedMem
  | 7 => some .normalMiscellaneous
  | _ => none

/-- `rdmem_attr_to_mmap_attr`. -/
def rdmemAttrToMmapAttr : RdMemType → U32
  | .device => mtDevice ||| mtRw
  | .normalCode => mtMemory
  | .normalRodata => mtMemory ||| mtExecuteNever
  | .normalData | .normalBss | .normalSpmSpSharedMem | .normalClientSharedMem
  | .normalMiscellaneous => mtMemory ||| mtRw

/-- `struct sp_rd_sect_mem_region`. -/
structure RdMemRegion where
  attr : U32
  base : U64
  size : U64
  deriving DecidableEq, Repr

/-- A partition of the package: where its image is, and its resource description. The
image does not wrap, which `plat_spm_sp_get_next_address` has checked. -/
structure Partition where
  imageBase : U64
  imageSize : U64
  loadAddress : U64
  memRegion : List RdMemRegion
  image_le : imageBase.toNat + imageSize.toNat ≤ 2 ^ 64

/-- The image in physical memory. -/
def Partition.image (p : Partition) : Range :=
  ⟨p.imageBase.toNat, p.imageBase.toNat + p.imageSize.toNat⟩

/-- The region is outside of the image, as `map_rdmem` computes it. -/
def Partition.isOutside (p : Partition) (rdmem : RdMemRegion) : Prop :=
  rdmem.base + rdmem.size ≤ p.loadAddress ∨ p.loadAddress + p.imageSize ≤ rdmem.base

instance (p : Partition) (rdmem : RdMemRegion) : Decidable (p.isOutside rdmem) :=
  inferInstanceAs (Decidable (_ ∨ _))

/-- The address of a region in the image. -/
def Partition.imagePa (p : Partition) (rdmem : RdMemRegion) : U64 :=
  p.imageBase + rdmem.base - p.loadAddress

/-! ### The platform -/

/-- The constants of the platform, and the translation context of EL3. The heap is in
physical memory, and so are the tables. -/
structure Platform where
  heapBase : U64
  heapSize : U64
  phyAddrSpaceSize : U64
  virtAddrSpaceSize : U64
  maxPartitions : Nat
  imageMmapRegions : Nat
  imageMaxXlatTables : Nat
  /-- The address of `sp_xlat_tables`. -/
  spXlatTables : Nat
  ttst : Bool
  el3 : XlatCtx
  heap_le : heapBase.toNat + heapSize.toNat ≤ 2 ^ 48
  phyAddrSpaceSize_pos : 0 < phyAddrSpaceSize.toNat
  phyAddrSpaceSize_le : phyAddrSpaceSize.toNat ≤ 2 ^ 48
  imageMmapRegions_pos : 0 < imageMmapRegions
  spXlatTables_aligned : pageSize ∣ spXlatTables
  spXlatTables_le : spXlatTables + maxPartitions * (imageMaxXlatTables + 1) * pageSize ≤ 2 ^ 48

/-- The heap. -/
def Platform.heap (plat : Platform) : Range :=
  ⟨plat.heapBase.toNat, plat.heapBase.toNat + plat.heapSize.toNat⟩

/-- The size of the virtual address space that the regions need. -/
def regionsVaSize (regions : List RdMemRegion) : U64 :=
  regions.foldl (fun vaSize rdmem =>
    let endVa := rdmem.base + rdmem.size
    if endVa > vaSize then endVa else vaSize) 0

/-- The power of two that is greater or equal; a shift by 64 is undefined. -/
def roundUpPowerOfTwo (vaSize : U64) : Option U64 :=
  if vaSize &&& (vaSize - 1) = 0 then some vaSize
  else
    let shift := vaSize.toNat.log2 + 1
    if shift < 64 then some (1 <<< shift) else none

/-- `spm_sp_xlat_context_alloc`. -/
def spmSpXlatContextAlloc (plat : Platform) (i : Fin plat.maxPartitions)
    (regions : List RdMemRegion) : Option XlatCtx :=
  let vaSize := regionsVaSize regions
  if vaSize = 0 then none
  else
    (roundUpPowerOfTwo vaSize).bind fun vaSize =>
      if vaSize > plat.virtAddrSpaceSize then none
      else
        let minVaSize : U64 := if plat.ttst then 1 <<< 16 else 1 <<< 25
        let vaSize := if vaSize < minVaSize then minVaSize else vaSize
        some {
          regime := .el1El0
          vaMaxAddress := vaSize - 1
          paMaxAddress := plat.phyAddrSpaceSize - 1
          mmapNum := plat.imageMmapRegions
          tablesNum := plat.imageMaxXlatTables
          -- The base table is the first of those for the partition.
          tablesAddr := plat.spXlatTables + (i * (plat.imageMaxXlatTables + 1) + 1) * pageSize
          ttst := plat.ttst
          mmapNum_pos := plat.imageMmapRegions_pos
          tablesAddr_aligned := Nat.dvd_add plat.spXlatTables_aligned (Nat.dvd_mul_left _ _)
          tablesAddr_le := by
            have hle := plat.spXlatTables_le
            have hi : (i.val + 1) * (plat.imageMaxXlatTables + 1) ≤
                plat.maxPartitions * (plat.imageMaxXlatTables + 1) :=
              Nat.mul_le_mul_right _ i.isLt
            simp only [pageSize, Nat.add_mul, Nat.one_mul] at hle hi ⊢
            omega
          paMaxAddress_lt := by
            have hpos := plat.phyAddrSpaceSize_pos
            have hle := plat.phyAddrSpaceSize_le
            bv_omega }

/-! ### Mapping regions -/

/-- A region of partition `sp` that has been mapped. -/
structure Mapping where
  sp : Nat
  rdmem : RdMemRegion
  type : RdMemType
  basePa : U64

/-- Data of partition `sp` that has been copied. -/
structure Copy where
  sp : Nat
  src : U64
  dst : U64
  size : U64

/-- The `sp_context_t` of a partition, as far as its memory goes. -/
structure SpContext where
  partition : Partition
  xlatCtx : XlatCtx
  xlat : XlatState
  spmSpBufferBase : U64
  spmSpBufferSize : U64

/-- The state of the SPM while it sets up partitions, with the log. -/
structure SetupState where
  heap : ObjectPool
  el3 : XlatState
  partitions : List SpContext
  mappings : List Mapping
  copies : List Copy

/-- `REGION_DEFAULT_GRANULARITY`. -/
def regionDefaultGranularity : U64 := BitVec.ofNat 64 (xlatBlockSize 1)

/-- Map memory at EL3, at its physical address. -/
def el3Map (plat : Platform) (el3 : XlatState) (basePa size : U64) : Option XlatState :=
  (mmapAddDynamicRegionCtx plat.el3 el3
    ⟨basePa, basePa, size, mtMemory ||| mtRw, regionDefaultGranularity⟩).bind fun r =>
      if r.2 ≠ 0 then none else some r.1

/-- Unmap memory at EL3. -/
def el3Unmap (plat : Platform) (el3 : XlatState) (basePa size : U64) : Option XlatState :=
  (mmapRemoveDynamicRegionCtx plat.el3 el3 basePa size).bind fun r =>
    if r.2 ≠ 0 then none else some r.1

/-- The `switch` of `map_rdmem`, which finds the physical memory for a region. -/
def rdmemPlace (plat : Platform) (i : Nat) (spm : SetupState) (sp : SpContext)
    (rdmem : RdMemRegion) : RdMemType → Option (SetupState × SpContext × U64)
  -- Device regions are mapped 1:1.
  | .device => some (spm, sp, rdmem.base)
  | .normalCode | .normalRodata =>
    if sp.partition.isOutside rdmem then none
    else some (spm, sp, sp.partition.imagePa rdmem)
  | .normalData =>
    if sp.partition.isOutside rdmem then none
    else
      (poolAllocN spm.heap rdmem.size).bind fun (heap, basePa) =>
        (el3Map plat spm.el3 basePa rdmem.size).bind fun el3 =>
          -- Copy original data to destination.
          let copy := ⟨i, sp.partition.imagePa rdmem, basePa, rdmem.size⟩
          (el3Unmap plat el3 basePa rdmem.size).map fun el3 =>
            ({ spm with heap := heap, el3 := el3, copies := copy :: spm.copies }, sp, basePa)
  | .normalMiscellaneous | .normalClientSharedMem | .normalBss =>
    (poolAllocN spm.heap rdmem.size).map fun (heap, basePa) =>
      ({ spm with heap := heap }, sp, basePa)
  | .normalSpmSpSharedMem =>
    -- A partition must have only one SPM<->SP buffer.
    if sp.spmSpBufferBase ≠ 0 ∨ sp.spmSpBufferSize ≠ 0 then none
    else
      (poolAllocN spm.heap rdmem.size).map fun (heap, basePa) =>
        ({ spm with heap := heap },
          { sp with spmSpBufferBase := basePa, spmSpBufferSize := rdmem.size }, basePa)

/-- The region of the partition's translation context. -/
def Mapping.region (m : Mapping) : MmapRegion where
  basePa := m.basePa
  baseVa := m.rdmem.base
  size := m.rdmem.size
  -- Only S-EL0 mappings supported for now.
  attr := rdmemAttrToMmapAttr m.type ||| mtUser
  -- Allow SPM to change the attributes of the region.
  granularity := if m.type = .normalMiscellaneous then BitVec.ofNat 64 pageSize
    else regionDefaultGranularity

/-- `zero_region` of `map_rdmem`. -/
def RdMemType.zeroRegion : RdMemType → Bool
  | .normalMiscellaneous | .normalSpmSpSharedMem | .normalClientSharedMem | .normalBss => true
  | .device | .normalCode | .normalData | .normalRodata => false

/-- The last part of `map_rdmem`: regions are zeroed through a mapping at EL3, which the
SPM keeps for the buffer that it shares with the partition. -/
def zeroRdmem (plat : Platform) (spm : SetupState) (type : RdMemType) (basePa size : U64) :
    Option SetupState :=
  if type.zeroRegion then
    (el3Map plat spm.el3 basePa size).bind fun el3 =>
      if type ≠ .normalSpmSpSharedMem then
        (el3Unmap plat el3 basePa size).map fun el3 => { spm with el3 := el3 }
      else some { spm with el3 := el3 }
  else some spm

/-- `map_rdmem`, for partition `i`. -/
def mapRdmem (plat : Platform) (i : Nat) (w : SetupState × SpContext) (rdmem : RdMemRegion) :
    Option (SetupState × SpContext) :=
  if rdmem.size = 0 then some w
  else
    (rdMemType rdmem.attr).bind fun type =>
      (rdmemPlace plat i w.1 w.2 rdmem type).bind fun (spm, sp, basePa) =>
        let m : Mapping := ⟨i, rdmem, type, basePa⟩
        (mmapAddRegionCtx sp.xlatCtx sp.xlat m.region).bind fun xlat =>
          (zeroRdmem plat { spm with mappings := m :: spm.mappings } type basePa rdmem.size).map
            fun spm => (spm, { sp with xlat := xlat })

/-- `sp_map_memory_regions`. -/
def spMapMemoryRegions (plat : Platform) (i : Nat) (w : SetupState × SpContext) :
    Option (SetupState × SpContext) :=
  (run (mapRdmem plat i) w w.2.partition.memRegion).bind fun (spm, sp) =>
    (initXlatTablesCtx sp.xlatCtx sp.xlat).map fun xlat => (spm, { sp with xlat := xlat })

/-- One round of the loop of `spm_setup`: `spm_sp_setup` for the next partition of the
package. -/
def spmSpSetup (plat : Platform) (spm : SetupState) (p : Partition) : Option SetupState :=
  -- Too many partitions in the package.
  if h : spm.partitions.length ≥ plat.maxPartitions then none
  else
    (spmSpXlatContextAlloc plat ⟨spm.partitions.length, Nat.lt_of_not_le h⟩ p.memRegion).bind
      fun ctx =>
        (spMapMemoryRegions plat spm.partitions.length (spm, ⟨p, ctx, .blank ctx, 0, 0⟩)).map
          fun (spm, sp) => { spm with partitions := spm.partitions ++ [sp] }

/-- The SPM before the first partition. -/
def SetupState.boot (plat : Platform) (el3 : XlatState) : SetupState where
  heap := ⟨1, plat.heapSize, plat.heapBase, 0, BitVec.le_def.mpr (Nat.zero_le _)⟩
  el3 := el3
  partitions := []
  mappings := []
  copies := []

/-- `spm_setup`. -/
def spmSetup (plat : Platform) (el3 : XlatState) (ps : List Partition) : Option SetupState :=
  -- No present partitions in the package.
  if ps = [] then none else run (spmSpSetup plat) (SetupState.boot plat el3) ps

/-! ### What the setup is for -/

/-- The region gets memory from the heap. -/
def RdMemType.onHeap : RdMemType → Bool
  | .normalData | .normalBss | .normalSpmSpSharedMem | .normalClientSharedMem
  | .normalMiscellaneous => true
  | .device | .normalCode | .normalRodata => false

/-- The region is, or is copied from, a part of the image. -/
def RdMemType.fromImage : RdMemType → Bool
  | .normalCode | .normalRodata | .normalData => true
  | .device | .normalBss | .normalSpmSpSharedMem | .normalClientSharedMem
  | .normalMiscellaneous => false

/-- The page of a physical address is in a range. -/
def PageInside (r : Range) (pa : Nat) : Prop := r.Covers (pa / pageSize * pageSize) pageSize

/-- The end of a walk for `va` at memory, which is not a device, at `pa`. -/
def memoryAt (va : U64) (pa : Nat) : Translation → Bool
  | .invalid => false
  | .leaf level desc => isDevice desc = false ∧ outputAddress level desc va = pa

/-- The partition has memory, which is not a device, mapped to `pa` at `va`. -/
def SpContext.Maps (sp : SpContext) (va : U64) (pa : Nat) : Prop :=
  va ≤ sp.xlatCtx.vaMaxAddress ∧ (tableWalk sp.xlatCtx sp.xlat va).any (memoryAt va pa) = true

instance (sp : SpContext) (va : U64) (pa : Nat) : Decidable (sp.Maps va pa) :=
  inferInstanceAs (Decidable (_ ∧ _))

/-- The page that partition `i` has at `va` is in its image, or in the memory of a region
that the heap was asked for. -/
def Home (spm : SetupState) (i : Nat) (image : Range) (va : U64) (pa : Nat) : Prop :=
  PageInside image pa ∨ ∃ m ∈ spm.mappings, m.sp = i ∧ m.type.onHeap = true ∧
    m.region.Contains va ∧ PageInside m.region.paRange pa

/-- Data is copied from the image. -/
def CopiesOwn (spm : SetupState) : Prop :=
  ∀ c ∈ spm.copies, ∀ sp, spm.partitions[c.sp]? = some sp →
    sp.partition.image.Covers c.src.toNat c.size.toNat

/-- **What the setup is for**: partitions have memory of their own. -/
structure Isolated (plat : Platform) (spm : SetupState) : Prop where
  own : ∀ i sp, spm.partitions[i]? = some sp → ∀ va pa, sp.Maps va pa →
    Home spm i sp.partition.image va pa
  /-- The heap gives memory to one region only. -/
  alone : (spm.mappings.filter (·.type.onHeap)).Pairwise fun m m' =>
    m.region.paRange.Apart m'.region.paRange
  /-- It gives what it has. -/
  heap : ∀ m ∈ spm.mappings, m.type.onHeap = true →
    plat.heap.lo ≤ m.region.paRange.lo ∧ m.region.paRange.hi ≤ plat.heap.hi
  /-- No two partitions share a page. -/
  apart : ∀ (i j : Nat) (sp sp' : SpContext),
    spm.partitions[i]? = some sp → spm.partitions[j]? = some sp' → i ≠ j →
    ∀ va va' pa pa', sp.Maps va pa → sp'.Maps va' pa' → pa / pageSize ≠ pa' / pageSize
  copied : CopiesOwn spm

/-- The region is fully contained in the image. -/
def Partition.Contains (p : Partition) (rdmem : RdMemRegion) : Prop :=
  p.loadAddress.toNat ≤ rdmem.base.toNat ∧
    rdmem.base.toNat + rdmem.size.toNat ≤ p.loadAddress.toNat + p.imageSize.toNat

instance (p : Partition) (rdmem : RdMemRegion) : Decidable (p.Contains rdmem) :=
  inferInstanceAs (Decidable (_ ∧ _))

/-- The partition's code, read-only data and data are in its image. -/
def Partition.WellFormed (p : Partition) : Prop :=
  ∀ rdmem ∈ p.memRegion, rdmem.size ≠ 0 →
    (rdMemType rdmem.attr).any RdMemType.fromImage = true → p.Contains rdmem

instance (p : Partition) : Decidable p.WellFormed :=
  inferInstanceAs (Decidable (∀ rdmem ∈ p.memRegion, _))

/-- The partition's data is in its image. -/
def Partition.DataContained (p : Partition) : Prop :=
  ∀ rdmem ∈ p.memRegion, rdmem.size ≠ 0 → rdMemType rdmem.attr = some .normalData → p.Contains rdmem

instance (r r' : Range) : Decidable (r.Apart r') := inferInstanceAs (Decidable (_ ∨ _))

/-- The images are apart from each other and from the heap. -/
structure ImagesApart (plat : Platform) (ps : List Partition) : Prop where
  images : ps.Pairwise fun p p' => p.image.Apart p'.image
  heap : ∀ p ∈ ps, p.image.Apart plat.heap

/-! ### One region -/

variable {plat : Platform} {i : Nat} {spm spm' : SetupState} {sp sp' : SpContext}
  {rdmem : RdMemRegion} {type : RdMemType} {basePa size : U64} {el3 el3' : XlatState}
  {w w' : SetupState × SpContext} {m : Mapping}

theorem el3Map_le (hsize : size ≠ 0) (h : el3Map plat el3 basePa size = some el3') :
    basePa.toNat + size.toNat ≤ 2 ^ 48 := by
  obtain ⟨⟨s, ret⟩, hcall, hret⟩ := bind_eq_some_iff.mp h
  split_ifs at hret with hzero
  rw [not_not] at hzero
  obtain rfl : ret = 0 := hzero
  unfold mmapAddDynamicRegionCtx at hcall
  rw [if_neg hsize] at hcall
  dsimp only at hcall
  split_ifs at hcall with hchk
  · exact absurd (mk.inj (some.inj hcall)).2 hchk
  · rw [not_not] at hchk
    obtain ⟨hok, -, -⟩ := mmapAddRegionCheck_eq_zero hsize hchk
    have hend := hok.endPa
    have hle := hok.pa_le
    have hlt := plat.el3.paMaxAddress_lt
    dsimp only at hend
    omega

/-- What the `switch` of `map_rdmem` does. -/
structure PlaceStep (plat : Platform) (i : Nat) (spm spm' : SetupState) (sp sp' : SpContext)
    (rdmem : RdMemRegion) (type : RdMemType) (basePa : U64) : Prop where
  xlat : sp'.xlat = sp.xlat
  xlatCtx : sp'.xlatCtx = sp.xlatCtx
  partition : sp'.partition = sp.partition
  partitions : spm'.partitions = spm.partitions
  mappings : spm'.mappings = spm.mappings
  inside : type.fromImage = true → ¬ sp.partition.isOutside rdmem
  image : type.fromImage = true → type.onHeap = false → basePa = sp.partition.imagePa rdmem
  alloc : type.onHeap = true → poolAllocN spm.heap rdmem.size = some (spm'.heap, basePa)
  mapped : type.onHeap = true → type.zeroRegion = false →
    ∃ el3', el3Map plat spm.el3 basePa rdmem.size = some el3'
  heap : type.onHeap = false → spm'.heap = spm.heap
  copies : spm'.copies = if type = .normalData then
    ⟨i, sp.partition.imagePa rdmem, basePa, rdmem.size⟩ :: spm.copies else spm.copies

theorem rdmemPlace_eq_some (h : rdmemPlace plat i spm sp rdmem type = some (spm', sp', basePa)) :
    PlaceStep plat i spm spm' sp sp' rdmem type basePa := by
  cases type with
  | device =>
    obtain ⟨rfl, rfl, rfl⟩ : spm = spm' ∧ sp = sp' ∧ rdmem.base = basePa := by
      simpa [rdmemPlace] using h
    constructor <;> simp [RdMemType.fromImage, RdMemType.onHeap]
  | normalCode | normalRodata =>
    simp only [rdmemPlace] at h
    split_ifs at h with hout
    obtain ⟨rfl, rfl, rfl⟩ : spm = spm' ∧ sp = sp' ∧ sp.partition.imagePa rdmem = basePa := by
      simpa using h
    constructor <;> simp [RdMemType.onHeap, hout]
  | normalData =>
    simp only [rdmemPlace] at h
    split_ifs at h with hout
    obtain ⟨⟨heap, pa⟩, hall, h⟩ := bind_eq_some_iff.mp h
    obtain ⟨el3, hmap, h⟩ := bind_eq_some_iff.mp h
    obtain ⟨el3', -, h⟩ := map_eq_some_iff.mp h
    obtain ⟨rfl, rfl, rfl⟩ := by simpa only [mk.injEq] using h
    constructor <;> simp [RdMemType.onHeap, hout, hall, hmap]
  | normalMiscellaneous | normalClientSharedMem | normalBss =>
    obtain ⟨⟨heap, pa⟩, hall, h⟩ := map_eq_some_iff.mp h
    obtain ⟨rfl, rfl, rfl⟩ := by simpa only [mk.injEq] using h
    constructor <;> simp [RdMemType.fromImage, RdMemType.onHeap, RdMemType.zeroRegion, hall]
  | normalSpmSpSharedMem =>
    simp only [rdmemPlace] at h
    split_ifs at h with hbuf
    obtain ⟨⟨heap, pa⟩, hall, h⟩ := map_eq_some_iff.mp h
    obtain ⟨rfl, rfl, rfl⟩ := by simpa only [mk.injEq] using h
    constructor <;> simp [RdMemType.fromImage, RdMemType.onHeap, RdMemType.zeroRegion, hall]

theorem zeroRdmem_eq_some (h : zeroRdmem plat spm type basePa size = some spm') :
    (∃ el3, spm' = { spm with el3 := el3 }) ∧
      (type.zeroRegion = true → ∃ el3', el3Map plat spm.el3 basePa size = some el3') := by
  unfold zeroRdmem at h
  split at h
  next hzero =>
    obtain ⟨el3, hmap, h⟩ := bind_eq_some_iff.mp h
    refine ⟨?_, fun _ => ⟨el3, hmap⟩⟩
    split_ifs at h
    · obtain ⟨el3', -, rfl⟩ := map_eq_some_iff.mp h
      exact ⟨el3', rfl⟩
    · exact ⟨el3, (some.inj h).symm⟩
  next hzero =>
    cases h
    exact ⟨⟨spm.el3, rfl⟩, fun h => absurd h hzero⟩

/-- **What `map_rdmem` does** for a region that is not empty. -/
structure MapStep (i : Nat) (w w' : SetupState × SpContext) (m : Mapping) : Prop where
  sp : m.sp = i
  size : m.rdmem.size ≠ 0
  type : rdMemType m.rdmem.attr = some m.type
  xlat : mmapAddRegionCtx w.2.xlatCtx w.2.xlat m.region = some w'.2.xlat
  xlatCtx : w'.2.xlatCtx = w.2.xlatCtx
  partition : w'.2.partition = w.2.partition
  partitions : w'.1.partitions = w.1.partitions
  mappings : w'.1.mappings = m :: w.1.mappings
  inside : m.type.fromImage = true → ¬ w.2.partition.isOutside m.rdmem
  image : m.type.fromImage = true → m.type.onHeap = false → m.basePa = w.2.partition.imagePa m.rdmem
  alloc : m.type.onHeap = true → poolAllocN w.1.heap m.rdmem.size = some (w'.1.heap, m.basePa) ∧
    m.basePa.toNat + m.rdmem.size.toNat ≤ 2 ^ 48
  heap : m.type.onHeap = false → w'.1.heap = w.1.heap
  copies : w'.1.copies = if m.type = .normalData then
    ⟨i, w.2.partition.imagePa m.rdmem, m.basePa, m.rdmem.size⟩ :: w.1.copies else w.1.copies

theorem mapRdmem_eq_some (h : mapRdmem plat i w rdmem = some w') :
    (rdmem.size = 0 ∧ w' = w) ∨ ∃ m, m.rdmem = rdmem ∧ MapStep i w w' m := by
  unfold mapRdmem at h
  split_ifs at h with hsize
  · exact .inl ⟨hsize, (some.inj h).symm⟩
  obtain ⟨type, htype, h⟩ := bind_eq_some_iff.mp h
  obtain ⟨⟨spm, sp, basePa⟩, hpl, h⟩ := bind_eq_some_iff.mp h
  obtain ⟨xlat, hxlat, h⟩ := bind_eq_some_iff.mp h
  obtain ⟨spm', hzero, rfl⟩ := map_eq_some_iff.mp h
  have hp := rdmemPlace_eq_some hpl
  obtain ⟨⟨el3, rfl⟩, hzer⟩ := zeroRdmem_eq_some hzero
  refine .inr ⟨⟨i, rdmem, type, basePa⟩, rfl, ?_⟩
  rw [hp.xlatCtx, hp.xlat] at hxlat
  refine ⟨rfl, hsize, htype, hxlat, hp.xlatCtx, hp.partition, hp.partitions,
    congrArg _ hp.mappings, hp.inside, hp.image, fun hheap => ⟨hp.alloc hheap, ?_⟩, hp.heap,
    hp.copies⟩
  -- EL3 maps the memory, to zero it or to copy into it.
  cases hz : type.zeroRegion with
  | true =>
    obtain ⟨el3', hmap⟩ := hzer hz
    exact el3Map_le hsize hmap
  | false =>
    obtain ⟨el3', hmap⟩ := hp.mapped hheap hz
    exact el3Map_le hsize hmap

/-! ### Invariants -/

/-- The heap gives each region memory of its own, below what is in use. -/
structure HeapInv (plat : Platform) (spm : SetupState) : Prop where
  objSize : spm.heap.objSize = 1
  capacity : spm.heap.capacity = plat.heapSize
  objects : spm.heap.objects = plat.heapBase
  inside : ∀ m ∈ spm.mappings, m.type.onHeap = true → plat.heapBase.toNat ≤ m.region.paRange.lo ∧
      m.region.paRange.hi ≤ plat.heapBase.toNat + spm.heap.used.toNat
  alone : (spm.mappings.filter (·.type.onHeap)).Pairwise fun m m' =>
    m.region.paRange.Apart m'.region.paRange

/-- What is in the log is about regions of the partitions. -/
structure LogInv (ps : List Partition) (spm : SetupState) : Prop where
  mappings : ∀ m ∈ spm.mappings, ∃ p, ps[m.sp]? = some p ∧ m.rdmem ∈ p.memRegion ∧
    m.rdmem.size ≠ 0 ∧ rdMemType m.rdmem.attr = some m.type ∧
    (m.type.fromImage = true → m.type.onHeap = false → m.basePa = p.imagePa m.rdmem)
  copies : ∀ c ∈ spm.copies, ∃ p rdmem, ps[c.sp]? = some p ∧ rdmem ∈ p.memRegion ∧
    rdmem.size ≠ 0 ∧ rdMemType rdmem.attr = some .normalData ∧
    c.src = p.imagePa rdmem ∧ c.size = rdmem.size

/-- The translation context of partition `i` has regions that are in the log. -/
structure SpInv (mappings : List Mapping) (i : Nat) (sp : SpContext) : Prop where
  xlat : XlatInv sp.xlatCtx (fun r attr => attr = r.attr) sp.xlat
  live : ∀ mm ∈ sp.xlat.live, ∃ m ∈ mappings, m.sp = i ∧ m.region = mm

variable {regions : List RdMemRegion} {ctx : XlatCtx}

variable {ps : List Partition} {p : Partition}

/-- **The heap, at one region.** An allocation does not wrap, as EL3 has mapped it. -/
theorem HeapInv.step (h : HeapInv plat w.1) (hstep : MapStep i w w' m) : HeapInv plat w'.1 := by
  cases hheap : m.type.onHeap with
  | false =>
    have hpool := hstep.heap hheap
    refine ⟨by rw [hpool]; exact h.objSize, by rw [hpool]; exact h.capacity,
      by rw [hpool]; exact h.objects, ?_, ?_⟩
    · rw [hstep.mappings, hpool]
      exact forall_mem_cons.mpr ⟨by simp [hheap], h.inside⟩
    · rw [hstep.mappings, filter_cons, if_neg (by rw [hheap]; decide)]
      exact h.alone
  | true =>
    obtain ⟨hall, hle⟩ := hstep.alloc hheap
    obtain ⟨hpa, hsize, hcap, hobj, hpool⟩ := poolAllocN_eq_some hall
    have hused := w.1.heap.used_le
    have hplat := plat.heap_le
    rw [h.capacity] at hused
    rw [h.objects, h.objSize] at hpa
    have hlo : m.basePa.toNat = plat.heapBase.toNat + w.1.heap.used.toNat := by
      bv_omega
    have hnew : w'.1.heap.used.toNat = w.1.heap.used.toNat + m.rdmem.size.toNat := by
      bv_omega
    refine ⟨hsize.trans h.objSize, hcap.trans h.capacity, hobj.trans h.objects,
      ?_, ?_⟩
    · rw [hstep.mappings]
      refine forall_mem_cons.mpr ⟨fun _ => ?_, fun m' hm' hon => ?_⟩
      · simp only [Mapping.region, MmapRegion.paRange]
        omega
      · obtain ⟨hge, hlt⟩ := h.inside m' hm' hon
        omega
    · rw [hstep.mappings, filter_cons, if_pos hheap]
      refine List.Pairwise.cons (fun m' hm' => .inr ?_) h.alone
      obtain ⟨hm', hon⟩ := mem_filter.mp hm'
      refine (h.inside m' hm' hon).2.trans ?_
      simp only [Mapping.region, MmapRegion.paRange]
      omega

theorem HeapInv.inHeap (h : HeapInv plat spm) (hm : m ∈ spm.mappings) (hon : m.type.onHeap = true) :
    plat.heap.lo ≤ m.region.paRange.lo ∧ m.region.paRange.hi ≤ plat.heap.hi := by
  obtain ⟨hlo, hhi⟩ := h.inside m hm hon
  have hused := BitVec.le_def.mp spm.heap.used_le
  rw [h.capacity] at hused
  exact ⟨hlo, hhi.trans (Nat.add_le_add_left hused _)⟩

theorem LogInv.step (h : LogInv ps w.1) (hstep : MapStep i w w' m) (hp : ps[i]? = some p)
    (hsp : w.2.partition = p) (hmem : m.rdmem ∈ p.memRegion) : LogInv ps w'.1 := by
  subst hsp
  constructor
  · rw [hstep.mappings]
    refine forall_mem_cons.mpr ⟨⟨_, ?_, hmem, hstep.size, hstep.type, hstep.image⟩, h.mappings⟩
    rw [hstep.sp]
    exact hp
  · rw [hstep.copies]
    split_ifs with hdata
    · refine forall_mem_cons.mpr ⟨⟨_, m.rdmem, hp, hmem, hstep.size, ?_, rfl, rfl⟩, h.copies⟩
      rw [hstep.type, hdata]
    · exact h.copies

theorem SpInv.mono {mappings mappings' : List Mapping} (h : SpInv mappings i sp)
    (hsub : mappings ⊆ mappings') : SpInv mappings' i sp := by
  refine ⟨h.xlat, fun mm hmm => ?_⟩
  obtain ⟨m, hm, hsp, hreg⟩ := h.live mm hmm
  exact ⟨m, hsub hm, hsp, hreg⟩

theorem SpInv.step (h : SpInv w.1.mappings i w.2) (hstep : MapStep i w w' m) :
    SpInv w'.1.mappings i w'.2 := by
  have hadd : w.2.xlat.step w.2.xlatCtx (.addRegion m.region) = some w'.2.xlat := hstep.xlat
  refine ⟨?_, fun mm hmm => ?_⟩
  · rw [hstep.xlatCtx]
    exact h.xlat.step_region (fun _ => rfl) rfl id hadd
  rw [hstep.mappings]
  have hold : mm ∈ w.2.xlat.live → ∃ m' ∈ m :: w.1.mappings, m'.sp = i ∧ m'.region = mm := by
    intro hmm
    obtain ⟨m', hm', heq⟩ := h.live mm hmm
    exact ⟨m', mem_cons_of_mem _ hm', heq⟩
  rcases mmapAddRegionCtx_eq_some h.xlat.mmap hstep.xlat with hsame | ⟨-, -, -, mmap, harr, hnew⟩
  · rw [hsame] at hmm
    exact hold hmm
  · have hlive : w'.2.xlat.live = w.2.xlat.inserted m.region := by
      rw [hnew]
      exact harr.live_eq
    rw [hlive, (w.2.xlat.inserted_perm m.region).mem_iff] at hmm
    rcases mem_cons.mp hmm with rfl | hmm
    · exact ⟨m, mem_cons_self, hstep.sp, rfl⟩
    · exact hold hmm

theorem live_blank (ctx : XlatCtx) : (XlatState.blank ctx).live = [] :=
  takeWhile_replicate_zero (by simp [MmapRegion.zero]) _

/-- What holds while the regions of partition `i` are mapped. -/
structure RegionsInv (plat : Platform) (ps : List Partition) (i : Nat) (p : Partition)
    (spm : SetupState) (ctx : XlatCtx) (w : SetupState × SpContext) : Prop where
  heap : HeapInv plat w.1
  log : LogInv ps w.1
  sp : SpInv w.1.mappings i w.2
  partition : w.2.partition = p
  xlatCtx : w.2.xlatCtx = ctx
  partitions : w.1.partitions = spm.partitions
  mappings : spm.mappings ⊆ w.1.mappings

theorem RegionsInv.step (h : RegionsInv plat ps i p spm ctx w)
    (hp : ps[i]? = some p) (hmem : rdmem ∈ p.memRegion)
    (hstep : mapRdmem plat i w rdmem = some w') : RegionsInv plat ps i p spm ctx w' := by
  rcases mapRdmem_eq_some hstep with ⟨-, rfl⟩ | ⟨m, rfl, hm⟩
  · exact h
  · refine ⟨h.heap.step hm, h.log.step hm hp h.partition hmem, h.sp.step hm,
      hm.partition.trans h.partition, hm.xlatCtx.trans h.xlatCtx,
      hm.partitions.trans h.partitions, ?_⟩
    rw [hm.mappings]
    exact subset_cons_of_subset _ h.mappings

/-- The regions of a partition. -/
theorem RegionsInv.run (h : RegionsInv plat ps i p spm ctx w)
    (hp : ps[i]? = some p) (hrun : run (mapRdmem plat i) w p.memRegion = some w') :
    RegionsInv plat ps i p spm ctx w' := by
  exact run_invariant_along (fun _ _ _ h hmem hstep => h.step hp hmem hstep) h
    (along_of_forall fun _ hmem => hmem) hrun

/-- The data regions in `regions` of partition `i` have been copied. -/
def CopiesData (copies : List Copy) (i : Nat) (p : Partition) (regions : List RdMemRegion) : Prop :=
  ∀ rdmem ∈ regions, rdmem.size ≠ 0 → rdMemType rdmem.attr = some .normalData →
    ¬ p.isOutside rdmem ∧
      ∃ c ∈ copies, c.sp = i ∧ c.src = p.imagePa rdmem ∧ c.size = rdmem.size

theorem CopiesData.mono {copies copies' : List Copy}
    (h : CopiesData copies i p regions) (hsub : copies ⊆ copies') :
    CopiesData copies' i p regions := by
  intro rdmem hmem hsize htype
  obtain ⟨hin, c, hc, hrest⟩ := h rdmem hmem hsize htype
  exact ⟨hin, c, hsub hc, hrest⟩

theorem MapStep.copies_subset (h : MapStep i w w' m) : w.1.copies ⊆ w'.1.copies := by
  rw [h.copies]
  split_ifs
  · exact subset_cons_self _ _
  · exact List.Subset.refl _

theorem copiesData_of_run (hrun : run (mapRdmem plat i) w regions = some w') :
    w.1.copies ⊆ w'.1.copies ∧ CopiesData w'.1.copies i w.2.partition regions := by
  induction regions generalizing w with
  | nil =>
    obtain rfl : w = w' := by simpa using hrun
    exact ⟨List.Subset.refl _, fun _ hmem => absurd hmem not_mem_nil⟩
  | cons rdmem regions ih =>
    obtain ⟨t, ht, hrest⟩ := run_cons hrun
    obtain ⟨hsub, hdata⟩ := ih hrest
    rcases mapRdmem_eq_some ht with ⟨hzero, rfl⟩ | ⟨m, rfl, hm⟩
    · exact ⟨hsub, forall_mem_cons.mpr ⟨fun hsize => absurd hzero hsize, hdata⟩⟩
    · rw [hm.partition] at hdata
      refine ⟨List.Subset.trans hm.copies_subset hsub,
        forall_mem_cons.mpr ⟨fun hsize htype => ?_, hdata⟩⟩
      have hmt : m.type = .normalData := some.inj (hm.type.symm.trans htype)
      refine ⟨hm.inside (by rw [hmt]; rfl),
        ⟨i, w.2.partition.imagePa m.rdmem, m.basePa, m.rdmem.size⟩, hsub ?_, rfl, rfl, rfl⟩
      rw [hm.copies, if_pos hmt]
      exact mem_cons_self

/-- What holds between partitions. -/
structure SetupInv (plat : Platform) (spm : SetupState) : Prop where
  heap : HeapInv plat spm
  log : LogInv (spm.partitions.map SpContext.partition) spm
  sps : ∀ i sp, spm.partitions[i]? = some sp → SpInv spm.mappings i sp ∧
    sp.xlat.initialized = true ∧ CopiesData spm.copies i sp.partition sp.partition.memRegion

theorem LogInv.append (h : LogInv ps spm) (p : Partition) : LogInv (ps ++ [p]) spm := by
  have hget : ∀ {i : Nat} {q}, ps[i]? = some q → (ps ++ [p])[i]? = some q := by
    intro i q hq
    rw [List.getElem?_append_left (List.getElem?_eq_some_iff.mp hq).1]
    exact hq
  refine ⟨fun m hm => ?_, fun c hc => ?_⟩
  · obtain ⟨q, hq, hrest⟩ := h.mappings m hm
    exact ⟨q, hget hq, hrest⟩
  · obtain ⟨q, rdmem, hq, hrest⟩ := h.copies c hc
    exact ⟨q, rdmem, hget hq, hrest⟩

/-- **One partition.** -/
theorem SetupInv.step (h : SetupInv plat spm) (hstep : spmSpSetup plat spm p = some spm') :
    SetupInv plat spm' ∧
      spm'.partitions.map SpContext.partition = spm.partitions.map SpContext.partition ++ [p] := by
  unfold spmSpSetup at hstep
  split_ifs at hstep with hmax
  obtain ⟨ctx, -, hstep⟩ := bind_eq_some_iff.mp hstep
  obtain ⟨⟨spm₁, sp₁⟩, hmap, rfl⟩ := map_eq_some_iff.mp hstep
  obtain ⟨⟨spm₂, sp₂⟩, hrun, hinit⟩ := bind_eq_some_iff.mp hmap
  obtain ⟨xlat, hxlat, heq⟩ := map_eq_some_iff.mp hinit
  obtain ⟨rfl, rfl⟩ := mk.inj heq
  have hstt : RegionsInv plat (spm.partitions.map SpContext.partition ++ [p])
      spm.partitions.length p spm ctx (spm, ⟨p, ctx, .blank ctx, 0, 0⟩) :=
    ⟨h.heap, h.log.append p, ⟨(XlatState.blank_registered ctx).xlatInv, by simp [live_blank]⟩,
      rfl, rfl, rfl, List.Subset.refl _⟩
  have hend := hstt.run (by simp) hrun
  obtain ⟨hcop, hdata⟩ := copiesData_of_run hrun
  obtain ⟨hlive, hinit⟩ := initXlatTablesCtx_eq_some hxlat
  have hset : sp₂.xlat.step sp₂.xlatCtx .init = some xlat := hxlat
  have hpart := hend.partition
  have hpts := hend.partitions
  have hmap : (spm₂.partitions ++ [{ sp₂ with xlat := xlat }]).map SpContext.partition =
      spm.partitions.map SpContext.partition ++ [p] := by
    rw [map_append, hpts, map_singleton, hpart]
  refine ⟨⟨⟨hend.heap.objSize, hend.heap.capacity, hend.heap.objects, hend.heap.inside,
    hend.heap.alone⟩, ?_, fun i sp hget => ?_⟩, hmap⟩
  · rw [hmap]
    exact ⟨hend.log.mappings, hend.log.copies⟩
  · dsimp only at hget
    rw [hpts, getElem?_append] at hget
    split_ifs at hget with hlt
    · obtain ⟨hsp, hdone, hold⟩ := h.sps i sp hget
      exact ⟨hsp.mono hend.mappings, hdone, hold.mono hcop⟩
    · rw [getElem?_singleton] at hget
      split_ifs at hget with hzero
      cases hget
      obtain rfl : i = spm.partitions.length := by omega
      refine ⟨⟨hend.sp.xlat.step_region (fun _ => rfl) rfl id hset, fun mm hmm => ?_⟩, hinit, ?_⟩
      swap
      · rw [hpart]
        exact hdata
      rw [hlive] at hmm
      exact hend.sp.live mm hmm

theorem setupInv_boot (plat : Platform) (el3 : XlatState) :
    SetupInv plat (SetupState.boot plat el3) := by
  refine ⟨⟨rfl, rfl, rfl, ?_, List.Pairwise.nil⟩, ⟨?_, ?_⟩, ?_⟩ <;> simp [SetupState.boot]

/-- **All partitions.** -/
theorem SetupInv.run {ps : List Partition} (h : SetupInv plat spm)
    (hrun : run (spmSpSetup plat) spm ps = some spm') :
    SetupInv plat spm' ∧
      spm'.partitions.map SpContext.partition = spm.partitions.map SpContext.partition ++ ps := by
  induction ps generalizing spm with
  | nil =>
    obtain rfl : spm = spm' := by simpa using hrun
    exact ⟨h, (append_nil _).symm⟩
  | cons p ps ih =>
    obtain ⟨t, ht, hrest⟩ := run_cons hrun
    obtain ⟨hinv, hpts⟩ := h.step ht
    obtain ⟨hinv', hparts'⟩ := ih hinv hrest
    exact ⟨hinv', by rw [hparts', hpts, append_assoc, singleton_append]⟩

/-! ### Isolation -/

variable {s : XlatState} {va desc : U64} {level : Nat} {pa : Nat}

/-- A walk that ends at a block or page ends at one of a region. -/
theorem leaf_region (h : XlatInv ctx (fun r attr => attr = r.attr) s) (hinit : s.initialized = true)
    (hva : va ≤ ctx.vaMaxAddress) (hwalk : tableWalk ctx s va = some (.leaf level desc)) :
    ∃ mm ∈ s.live, RegionOk ctx mm ∧ mm.Contains va ∧
      outputAddress level desc va = mm.basePa.toNat + (va.toNat - mm.baseVa.toNat) ∧
      isDevice desc = decide (memType mm.attr = some .device) := by
  obtain ⟨hs, ls, hfol⟩ := h.tables hinit
  have hbase := ctx.baseDepth_le
  obtain ⟨e, y, hlvl, hed, hy, hle, hlt, ⟨hinv, -⟩ | hleaf⟩ := hfol.walkEnd hs hva
  · have hnone := tableWalkFrom_invalid hinv
    rw [tableWalk, hnone] at hwalk
    cases hwalk
  · have hdesc' := tableWalkFrom_leaf hbase hleaf.2.1 hlvl (regionPlan_type hleaf)
    obtain ⟨-, he, -, mm, hmm, hcov, ⟨attr, hattr, hdesc⟩, -⟩ := hleaf
    obtain rfl : attr = mm.attr := hattr
    rw [tableWalk, hdesc'] at hwalk
    obtain ⟨rfl, rfl⟩ := Translation.leaf.inj (some.inj hwalk)
    have hok := h.mmap.valid mm hmm
    refine ⟨mm, hmm, hok, ?_, hok.outputAddress hs (by omega) hy hle hlt hcov hdesc, ?_⟩
    · exact hok.contains_iff.mpr ⟨hcov.1.trans hle, hlt.trans_le hcov.2⟩
    · obtain ⟨hdvd, t, ht, heq⟩ := xlatDesc_eq_some hdesc
      have hpa : IsAddress (mm.paAt y) :=
        ⟨(pageSize_dvd_xlatBlockSize _).trans hdvd, paAt_lt hs hok hcov⟩
      rw [ht, heq, isDevice, hpa.attrIndexOf]
      refine (isDevice_descFlags _).trans ?_
      simp [DescKind.ofAttr]

theorem pageInside_region {mm : MmapRegion} (h : RegionOk ctx mm) (hva : mm.Contains va) :
    PageInside mm.paRange (mm.basePa.toNat + (va.toNat - mm.baseVa.toNat)) := by
  obtain ⟨hlo, hhi⟩ := h.contains_iff.mp hva
  obtain ⟨a, ha⟩ := h.pa_aligned
  obtain ⟨b, hb⟩ := h.size_aligned
  simp only [PageInside, Range.Covers, MmapRegion.paRange, MmapRegion.range, pageSize] at *
  omega

theorem Mapping.isDevice_region (m : Mapping) :
    decide (memType m.region.attr = some .device) = decide (m.type = .device) := by
  cases htype : m.type <;> simp only [Mapping.region, htype] <;> decide

/-- A part of the image is where the region is in the image. -/
theorem Partition.Contains.covers (h : p.Contains rdmem) (hsize : rdmem.size ≠ 0) :
    p.image.Covers (p.imagePa rdmem).toNat rdmem.size.toNat := by
  have hle := p.image_le
  obtain ⟨hlo, hhi⟩ := h
  have hpa : (p.imagePa rdmem).toNat =
      p.imageBase.toNat + (rdmem.base.toNat - p.loadAddress.toNat) := by
    rw [Partition.imagePa]
    bv_omega
  simp only [Range.Covers, Partition.image, hpa]
  omega

theorem Partition.contains_of_covers (hin : ¬ p.isOutside rdmem)
    (h : p.image.Covers (p.imagePa rdmem).toNat rdmem.size.toNat) : p.Contains rdmem := by
  obtain ⟨hlo, hhi⟩ := h
  simp only [Partition.isOutside, not_or] at hin
  simp only [Partition.image] at hlo hhi
  unfold Partition.imagePa at hlo hhi
  unfold Partition.Contains
  bv_omega

/-- The memory of a partition is that of its regions. -/
theorem SetupInv.maps (h : SetupInv plat spm) (hsp : spm.partitions[i]? = some sp)
    (hmaps : sp.Maps va pa) :
    ∃ m ∈ spm.mappings, m.sp = i ∧ m.type ≠ .device ∧ m.region.Contains va ∧
      PageInside m.region.paRange pa := by
  obtain ⟨hva, hany⟩ := hmaps
  obtain ⟨t, hwalk, hleaf⟩ := (any_eq_true _ _).mp hany
  cases t with
  | invalid => cases hleaf
  | leaf =>
    obtain ⟨hde, rfl⟩ := of_decide_eq_true hleaf
    obtain ⟨hspi, hinit, -⟩ := h.sps i sp hsp
    obtain ⟨mm, hmm, hok, hcon, hout, hdev⟩ := leaf_region hspi.xlat hinit hva hwalk
    obtain ⟨m, hm, hmsp, rfl⟩ := hspi.live mm hmm
    rw [hde, m.isDevice_region] at hdev
    refine ⟨m, hm, hmsp, of_decide_eq_false hdev.symm, hcon, ?_⟩
    rw [hout]
    exact pageInside_region hok hcon

theorem PageInside.ne_of_apart {r r' : Range} {pa' : Nat} (h : PageInside r pa)
    (h' : PageInside r' pa') (hap : r.Apart r') : pa / pageSize ≠ pa' / pageSize := by
  intro heq
  obtain ⟨hlo, hhi⟩ := h
  obtain ⟨hlo', hhi'⟩ := h'
  rw [heq] at hlo hhi
  have hpos : 0 < pageSize := by decide
  rcases hap with hle | hle <;> omega

theorem PageInside.mono {r r' : Range} (h : PageInside r pa) (hlo : r'.lo ≤ r.lo)
    (hhi : r.hi ≤ r'.hi) : PageInside r' pa :=
  ⟨hlo.trans h.1, h.2.trans hhi⟩

/-- The pages of a partition whose code, read-only data and data are in its image. -/
theorem SetupInv.home (h : SetupInv plat spm) (hsp : spm.partitions[i]? = some sp)
    (hfor : sp.partition.WellFormed) (hmaps : sp.Maps va pa) :
    Home spm i sp.partition.image va pa := by
  obtain ⟨m, hm, hmsp, hdev, hcon, hpage⟩ := h.maps hsp hmaps
  cases hheap : m.type.onHeap with
  | true => exact .inr ⟨m, hm, hmsp, hheap, hcon, hpage⟩
  | false =>
    have himg : m.type.fromImage = true := by
      cases htype : m.type <;> simp_all [RdMemType.onHeap, RdMemType.fromImage]
    obtain ⟨p, hp, hmem, hsize, htype, hpa⟩ := h.log.mappings m hm
    obtain rfl : sp.partition = p := by
      rw [hmsp, getElem?_map, hsp] at hp
      exact some.inj hp
    have hcov := (hfor m.rdmem hmem hsize (by rw [htype]; exact himg)).covers hsize
    rw [← hpa himg hheap] at hcov
    exact .inl (hpage.mono hcov.1 hcov.2)

/-- Pages of different partitions. -/
theorem SetupInv.home_ne (h : SetupInv plat spm) {j : Nat} {image image' : Range} {va' : U64}
    {pa' : Nat} (hne : i ≠ j) (himgs : image.Apart image') (hheap : image.Apart plat.heap)
    (hheap' : image'.Apart plat.heap) (hpa : Home spm i image va pa)
    (hpa' : Home spm j image' va' pa') : pa / pageSize ≠ pa' / pageSize := by
  rcases hpa with hpage | ⟨m, hm, hsp, hon, -, hpage⟩ <;>
    rcases hpa' with hpage' | ⟨m', hm', hsp', hon', -, hpage'⟩
  · exact hpage.ne_of_apart hpage' himgs
  · obtain ⟨hlo, hhi⟩ := h.heap.inHeap hm' hon'
    exact hpage.ne_of_apart (hpage'.mono hlo hhi) hheap
  · obtain ⟨hlo, hhi⟩ := h.heap.inHeap hm hon
    exact (hpage.mono hlo hhi).ne_of_apart hpage' hheap'.symm
  · -- The two regions differ, as they are regions of different partitions.
    have hmne : m ≠ m' := by
      rintro rfl
      exact hne (hsp.symm.trans hsp')
    have hsymm : Std.Symm fun m m' : Mapping => m.region.paRange.Apart m'.region.paRange :=
      ⟨fun _ _ hap => hap.symm⟩
    exact hpage.ne_of_apart hpage' (h.heap.alone.forall
      (mem_filter.mpr ⟨hm, hon⟩) (mem_filter.mpr ⟨hm', hon'⟩) hmne)

theorem ImagesApart.getElem (h : ImagesApart plat ps) {j : Nat} {p' : Partition} (hne : i ≠ j)
    (hp : ps[i]? = some p) (hp' : ps[j]? = some p') : p.image.Apart p'.image := by
  obtain ⟨hi, rfl⟩ := List.getElem?_eq_some_iff.mp hp
  obtain ⟨hj, rfl⟩ := List.getElem?_eq_some_iff.mp hp'
  have hpw := pairwise_iff_getElem.mp h.images
  rcases lt_or_gt_of_ne hne with hlt | hgt
  · exact hpw i j hi hj hlt
  · exact (hpw j i hj hi hgt).symm

/-- Data is copied from the images only exactly when it is in them. -/
theorem SetupInv.copiesOwn_iff (h : SetupInv plat spm) :
    CopiesOwn spm ↔ ∀ p ∈ spm.partitions.map SpContext.partition, p.DataContained := by
  constructor
  · intro hown p hp rdmem hmem hsize htype
    obtain ⟨sp, hsp, rfl⟩ := mem_map.mp hp
    obtain ⟨i, hi⟩ := mem_iff_getElem?.mp hsp
    obtain ⟨-, -, hdata⟩ := h.sps i sp hi
    obtain ⟨hin, c, hc, rfl, hsrc, hcsi⟩ := hdata rdmem hmem hsize htype
    have hcov := hown c hc sp hi
    rw [hsrc, hcsi] at hcov
    exact Partition.contains_of_covers hin hcov
  · intro hcon c hc sp hsp
    obtain ⟨p, rdmem, hp, hmem, hsize, htype, hsrc, hcsi⟩ := h.log.copies c hc
    have hmemp := mem_of_getElem? hp
    rw [getElem?_map, hsp] at hp
    cases hp
    rw [hsrc, hcsi]
    exact (hcon _ hmemp rdmem hmem hsize htype).covers hsize

/-- **Setting up partitions.** When the code, read-only data and data of every partition
are in its image, and the images are apart, partitions are isolated. Data is copied from
the images only exactly when all data is in them. -/
theorem partitions_isolated {el3 : XlatState} (hsetup : spmSetup plat el3 ps = some spm) :
    ((∀ p ∈ ps, p.WellFormed) → ImagesApart plat ps → Isolated plat spm) ∧
    (CopiesOwn spm ↔ ∀ p ∈ ps, p.DataContained) := by
  unfold spmSetup at hsetup
  split_ifs at hsetup with hnil
  obtain ⟨hinv, hpts⟩ := (setupInv_boot plat el3).run hsetup
  obtain rfl : spm.partitions.map SpContext.partition = ps := hpts
  refine ⟨fun hfor himgs => ?_, hinv.copiesOwn_iff⟩
  have hget : ∀ {i : Nat} {sp}, spm.partitions[i]? = some sp →
      (spm.partitions.map SpContext.partition)[i]? = some sp.partition := by
    intro i sp hsp
    rw [getElem?_map, hsp]
    rfl
  have hmem : ∀ {i : Nat} {sp}, spm.partitions[i]? = some sp →
      sp.partition ∈ spm.partitions.map SpContext.partition :=
    fun hsp => mem_of_getElem? (hget hsp)
  have hhome : ∀ i sp, spm.partitions[i]? = some sp → ∀ va pa, sp.Maps va pa →
      Home spm i sp.partition.image va pa :=
    fun i sp hsp va pa hmaps => hinv.home hsp (hfor _ (hmem hsp)) hmaps
  refine ⟨hhome, hinv.heap.alone, fun m hm hon => hinv.heap.inHeap hm hon, ?_, ?_⟩
  · intro i j sp sp' hsp hsp' hne va va' pa pa' hmaps hmaps'
    exact hinv.home_ne hne (himgs.getElem hne (hget hsp) (hget hsp'))
      (himgs.heap _ (hmem hsp)) (himgs.heap _ (hmem hsp'))
      (hhome i sp hsp va pa hmaps) (hhome j sp' hsp' va' pa' hmaps')
  · refine hinv.copiesOwn_iff.mpr fun p hp rdmem hrdm hsize htype => ?_
    exact hfor p hp rdmem hrdm hsize (by rw [htype]; rfl)

/-! ### Runs -/

/-- A platform for two partitions, with a heap of 16 pages. -/
def samplePlatform : Platform where
  heapBase := 0x100000
  heapSize := 0x10000
  phyAddrSpaceSize := 0x100000000
  virtAddrSpaceSize := 0x100000000
  maxPartitions := 2
  imageMmapRegions := 4
  imageMaxXlatTables := 4
  spXlatTables := 0x200000
  ttst := false
  el3 := sampleCtx 0xFFFFFFFF 4
  heap_le := by decide
  phyAddrSpaceSize_pos := by decide
  phyAddrSpaceSize_le := by decide
  imageMmapRegions_pos := (sampleCtx 0xFFFFFFFF 4).mmapNum_pos
  spXlatTables_aligned := by decide
  spXlatTables_le := by decide

/-- A partition with an image of two pages at `0x1000`: a page of code and a page of data.
A page behind them is cleared. -/
def codeAndData (imageBase : U64) (h : imageBase.toNat + 0x2000 ≤ 2 ^ 64) : Partition where
  imageBase := imageBase
  imageSize := 0x2000
  loadAddress := 0x1000
  memRegion := [⟨1, 0x1000, 0x1000⟩, ⟨2, 0x2000, 0x1000⟩, ⟨3, 0x3000, 0x1000⟩]
  image_le := h

/-- A package of two such partitions. -/
def twoPartitions : List Partition :=
  [codeAndData 0x300000 (by decide), codeAndData 0x302000 (by decide)]

/-- The setup of a package on the platform above. -/
def sampleSetup (ps : List Partition) : Option SetupState :=
  spmSetup samplePlatform (.blank samplePlatform.el3) ps

/-- Two such partitions are isolated. -/
theorem partitions_isolated_two :
    ∃ spm, sampleSetup twoPartitions = some spm ∧ spm.partitions.length = 2 ∧
      Isolated samplePlatform spm := by
  refine exists_some_imp (by decide +kernel)
    fun spm hrun hlen => ⟨hlen, (partitions_isolated hrun).1 ?_ ⟨?_, ?_⟩⟩
  · decide +kernel
  · decide +kernel
  · decide +kernel

/-- A partition with an image of one page at `0x1000`, of which it says that it has two
pages of read-only data. -/
def beyondImage : Partition where
  imageBase := 0x300000
  imageSize := 0x1000
  loadAddress := 0x1000
  memRegion := [⟨4, 0x1000, 0x2000⟩]
  image_le := by decide

/-- A package with such a partition, followed by another one. -/
def overlappingPartitions : List Partition := [beyondImage, codeAndData 0x301000 (by decide)]

/-- The second page of read-only data is the first page of the partition whose image is
behind the image. -/
theorem read_only_data_beyond_image :
    ∃ spm, sampleSetup overlappingPartitions = some spm ∧ ¬ Isolated samplePlatform spm := by
  refine exists_some_imp (q := fun spm =>
    (∃ sp, spm.partitions[0]? = some sp ∧ sp.Maps 0x2000 0x301000) ∧
    ∃ sp, spm.partitions[1]? = some sp ∧ sp.Maps 0x1000 0x301000) (by decide +kernel)
    fun spm _ ⟨⟨sp, hsp, hmaps⟩, sp', hsp', hmaps'⟩ hiso => ?_
  exact hiso.apart 0 1 sp sp' hsp hsp' (by decide) _ _ _ _ hmaps hmaps' rfl

end TrustedFirmware.Spm.RdMap
