import TrustedFirmware.Xlat.Attrs

/-!
# A translation context as a machine

The events are the calls that a caller can make; what a call returns is not part of the
state, so a failed call is a step like any other. A call that fails an assertion or
panics is not possible.
-/

namespace TrustedFirmware.Xlat

open Lib

/-- The calls on a context. -/
inductive XlatOp
  | addRegion (mm : MmapRegion)
  | addDynamicRegion (mm : MmapRegion)
  | removeDynamicRegion (baseVa size : U64)
  | init
  | changeMemAttributes (baseVa size : U64) (attr : U32)
  deriving DecidableEq, Repr

/-- One call. -/
def XlatState.step (ctx : XlatCtx) (s : XlatState) : XlatOp → Option XlatState
  | .addRegion mm => mmapAddRegionCtx ctx s mm
  | .addDynamicRegion mm => (mmapAddDynamicRegionCtx ctx s mm).map Prod.fst
  | .removeDynamicRegion baseVa size => (mmapRemoveDynamicRegionCtx ctx s baseVa size).map Prod.fst
  | .init => initXlatTablesCtx ctx s
  | .changeMemAttributes baseVa size attr =>
    (xlatChangeMemAttributesCtx ctx s baseVa size attr).map Prod.fst

/-! ### A context to run -/

instance neZero_sixteen : NeZero 16 := ⟨Nat.succ_ne_zero 15⟩

/-- A context of EL3 with room for four regions, whose tables begin at address
`0x1000`. -/
def sampleCtx (vaMaxAddress : U64) (tablesNum : Fin 16) : XlatCtx where
  regime := .el3
  vaMaxAddress := vaMaxAddress
  paMaxAddress := 0xFFFFFFFF
  mmapNum := 4
  tablesNum := tablesNum
  tablesAddr := 0x1000
  ttst := false
  mmapNum_pos := by decide
  tablesAddr_aligned := by decide
  tablesAddr_le := by
    have hlt := tablesNum.isLt
    simp only [pageSize]
    omega
  paMaxAddress_lt := by decide

/-- A region of read-only memory, which is mapped with the largest blocks. -/
def sampleRegion (basePa baseVa size : U64) : MmapRegion where
  basePa := basePa
  baseVa := baseVa
  size := size
  attr := mtMemory
  granularity := BitVec.ofNat 64 (xlatBlockSize 1)

end TrustedFirmware.Xlat
