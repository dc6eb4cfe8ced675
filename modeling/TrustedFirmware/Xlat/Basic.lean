import Mathlib.Algebra.Order.Ring.Nat

/-!
# The data of the translation-table library

`lib/xlat_tables_v2`, AArch64, 4 KiB granule, `PLAT_XLAT_TABLES_DYNAMIC = 1`: the
constants of `xlat_tables_defs.h`, memory regions, and a translation context.

A `xlat_ctx_t` is split in two. `XlatCtx` is what never changes once the context is
registered; `XlatState` is the memory that the library writes. Addresses and
descriptors are 64-bit words with the wrap-around of the machine; table and entry
numbers are natural numbers, and the arrays of descriptors and counts are functions
of which only the elements inside the C arrays matter.
-/

namespace TrustedFirmware.Xlat

open Function

abbrev U64 := BitVec 64
abbrev U32 := BitVec 32

/-! ### Constants -/

def invalidDesc : U64 := 0x0
/-- Levels 0 to 2. -/
def blockDesc : U64 := 0x1
/-- Levels 0 to 2. -/
def tableDesc : U64 := 0x3
/-- Level 3. -/
def pageDesc : U64 := 0x3
def descMask : U64 := 0x3
def tableAddrMask : U64 := 0x0000FFFFFFFFF000

def pageSize : Nat := 4096
def pageSizeMask : U64 := 0xFFF
def xlatTableEntries : Nat := 512
def xlatTableLevelMax : Nat := 3
/-- The first level that allows block descriptors. -/
def minLvlBlockDesc : Nat := 1

/-- `XLAT_ADDR_SHIFT`. -/
def xlatAddrShift (level : Nat) : Nat := 12 + (xlatTableLevelMax - level) * 9

/-- `XLAT_BLOCK_SIZE`. -/
def xlatBlockSize (level : Nat) : Nat := 2 ^ xlatAddrShift level

/-- `XLAT_BLOCK_MASK`. -/
def xlatBlockMask (level : Nat) : U64 := BitVec.ofNat 64 (xlatBlockSize level - 1)

/-- `IS_PAGE_ALIGNED`. -/
def isPageAligned (addr : U64) : Bool := addr &&& pageSizeMask = 0

/-! ### Regions -/

def mtTypeMask : U32 := 0x7
def mtDevice : U32 := 0
def mtNonCacheable : U32 := 1
def mtMemory : U32 := 2
def mtRw : U32 := 1 <<< 3
def mtNs : U32 := 1 <<< 4
def mtExecuteNever : U32 := 1 <<< 5
def mtUser : U32 := 1 <<< 6
def mtDynamic : U32 := 1 <<< 31

/-- `mmap_region_t`. -/
structure MmapRegion where
  basePa : U64
  baseVa : U64
  size : U64
  attr : U32
  granularity : U64
  deriving DecidableEq, Repr

/-- The entry that ends the `mmap` array, as every unused one. -/
def MmapRegion.zero : MmapRegion := ⟨0, 0, 0, 0, 0⟩

/-- The last virtual address of a region. -/
def MmapRegion.endVa (mm : MmapRegion) : U64 := mm.baseVa + mm.size - 1

/-- The last physical address of a region. -/
def MmapRegion.endPa (mm : MmapRegion) : U64 := mm.basePa + mm.size - 1

def MmapRegion.isDynamic (mm : MmapRegion) : Bool := mm.attr &&& mtDynamic ≠ 0

/-- The error codes that the library returns, negated. -/
def ePerm : Int := 1
def eNoMem : Int := 12
def eInval : Int := 22
def eRange : Int := 34

/-! ### Contexts -/

/-- The translation regimes. -/
inductive XlatRegime
  | el1El0
  | el2
  | el3
  deriving DecidableEq, Repr

/-- `GET_XLAT_TABLE_LEVEL_BASE`. -/
def getXlatTableLevelBase (virtAddrSpaceSize : Nat) : Nat :=
  if virtAddrSpaceSize > 2 ^ 39 then 0
  else if virtAddrSpaceSize > 2 ^ 30 then 1
  else if virtAddrSpaceSize > 2 ^ 21 then 2
  else 3

/-- `GET_NUM_BASE_LEVEL_ENTRIES`. -/
def getNumBaseLevelEntries (addrSpaceSize : Nat) : Nat :=
  addrSpaceSize >>> xlatAddrShift (getXlatTableLevelBase addrSpaceSize)

/-- The fixed part of a `xlat_ctx_t`. The fields that are proofs say what a
registered context provides: an `mmap` array with room for a region, an array of
tables aligned to its elements that a table descriptor can point into, and physical
addresses of at most 48 bits, which is all that the MMU can be set up for
(`tcr_physical_addr_size_bits` asserts it). -/
structure XlatCtx where
  regime : XlatRegime
  vaMaxAddress : U64
  paMaxAddress : U64
  mmapNum : Nat
  tablesNum : Nat
  /-- The address of `tables[0]`. -/
  tablesAddr : Nat
  /-- Small translation tables are supported (`is_armv8_4_ttst_present`). -/
  ttst : Bool
  mmapNum_pos : 0 < mmapNum
  tablesAddr_aligned : pageSize ∣ tablesAddr
  tablesAddr_le : tablesAddr + tablesNum * pageSize ≤ 2 ^ 48
  paMaxAddress_lt : paMaxAddress.toNat < 2 ^ 48

namespace XlatCtx

def virtAddrSpaceSize (ctx : XlatCtx) : Nat := ctx.vaMaxAddress.toNat + 1

def baseLevel (ctx : XlatCtx) : Nat := getXlatTableLevelBase ctx.virtAddrSpaceSize

def baseTableEntries (ctx : XlatCtx) : Nat := getNumBaseLevelEntries ctx.virtAddrSpaceSize

/-- The address of `tables[j]`. -/
def tableAddr (ctx : XlatCtx) (j : Nat) : U64 :=
  BitVec.ofNat 64 (ctx.tablesAddr + j * pageSize)

end XlatCtx

/-- The tables: the one of the initial lookup level, and the elements of `tables`. -/
inductive TableRef
  | base
  | sub (j : Nat)
  deriving DecidableEq, Repr

/-- The memory of a `xlat_ctx_t`. -/
structure XlatState where
  mmap : List MmapRegion
  tables : Nat → Nat → U64
  tablesMappedRegions : Nat → Int
  baseTable : Nat → U64
  maxPa : U64
  maxVa : U64
  initialized : Bool

namespace XlatState

/-- The descriptor in entry `idx` of a table. -/
def read (s : XlatState) : TableRef → Nat → U64
  | .base, idx => s.baseTable idx
  | .sub j, idx => s.tables j idx

/-- Write a descriptor into entry `idx` of a table. -/
def write (s : XlatState) (ref : TableRef) (idx : Nat) (desc : U64) : XlatState :=
  match ref with
  | .base => { s with baseTable := update s.baseTable idx desc }
  | .sub j =>
    { s with tables := update s.tables j (update (s.tables j) idx desc) }

/-- Add to the count of table `j`. -/
def addCount (s : XlatState) (j : Nat) (n : Int) : XlatState :=
  { s with
    tablesMappedRegions := update s.tablesMappedRegions j (s.tablesMappedRegions j + n) }

variable (s : XlatState) (ref : TableRef) (idx : Nat) (desc : U64)

@[simp] theorem read_write_self : (s.write ref idx desc).read ref idx = desc := by
  cases ref <;> simp [read, write]

theorem read_write_of_ne (ref' : TableRef) (idx' : Nat) (h : ref' ≠ ref ∨ idx' ≠ idx) :
    (s.write ref idx desc).read ref' idx' = s.read ref' idx' := by
  cases ref with
  | base =>
    cases ref' with
    | base => simp [read, write, update_of_ne (h.resolve_left fun h => h rfl)]
    | sub => rfl
  | sub j =>
    cases ref' with
    | base => rfl
    | sub j' =>
      obtain rfl | hj := eq_or_ne j' j
      · simp [read, write, update_of_ne (h.resolve_left fun h => h rfl)]
      · simp [read, write, update_of_ne hj]

theorem write_write (desc' : U64) :
    (s.write ref idx desc).write ref idx desc' = s.write ref idx desc' := by
  cases ref <;> simp [write, update_idem]

@[simp] theorem tablesMappedRegions_write :
    (s.write ref idx desc).tablesMappedRegions = s.tablesMappedRegions := by
  cases ref <;> rfl

@[simp] theorem read_addCount (j : Nat) (n : Int) :
    (s.addCount j n).read ref idx = s.read ref idx := by
  cases ref <;> rfl

@[simp] theorem tablesMappedRegions_addCount_self (j : Nat) (n : Int) :
    (s.addCount j n).tablesMappedRegions j = s.tablesMappedRegions j + n := by
  simp [addCount]

theorem tablesMappedRegions_addCount_of_ne {j k : Nat} (h : k ≠ j) (n : Int) :
    (s.addCount j n).tablesMappedRegions k = s.tablesMappedRegions k := by
  simp [addCount, h]

end XlatState

end TrustedFirmware.Xlat
