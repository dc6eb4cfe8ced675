import TrustedFirmware.Lib.Bits
import TrustedFirmware.Xlat.Basic

/-!
# Block and page descriptors

`xlat_desc` (`xlat_tables_core.c`), which builds one from the attributes of a region,
and the decoding of `xlat_get_mem_attributes_internal` (`xlat_tables_utils.c`), which
reads the attributes back.

A descriptor is the output address with flags around it (`xlatDesc_eq`), and the
flags depend on a handful of yes-or-no questions (`descFlags`). The two fields do
not overlap, so that both can be read back from the word.
-/

namespace TrustedFirmware.Xlat

open Lib BitVec

/-! ### Fields -/

/-- `LOWER_ATTRS`. -/
def lowerAttrs (x : U64) : U64 := (x &&& 0xfff) <<< 2

/-- `UPPER_ATTRS`. -/
def upperAttrs (x : U64) : U64 := (x &&& 0x7) <<< 52

def accessFlag : U64 := 1 <<< 8
def osh : U64 := 0x2 <<< 6
def ish : U64 := 0x3 <<< 6
def ns : U64 := 0x1 <<< 3
def apRo : U64 := 0x1 <<< 5
def apRw : U64 := 0x0 <<< 5
def apAccessUnprivileged : U64 := 0x1 <<< 4
def apNoAccessUnprivileged : U64 := 0x0 <<< 4
def apOneVaRangeRes1 : U64 := 0x1 <<< 4
def attrNonCacheableIndex : U64 := 0x2
def attrDeviceIndex : U64 := 0x1
def attrIwbwaOwbwaNtrIndex : U64 := 0x0
def xn : U64 := 1 <<< 2
def uxn : U64 := 1 <<< 2
def pxn : U64 := 1 <<< 1

/-- `xlat_arch_regime_get_xn_desc`. -/
def xlatArchRegimeGetXnDesc : XlatRegime → U64
  | .el1El0 => upperAttrs uxn ||| upperAttrs pxn
  | .el2 => upperAttrs xn
  | .el3 => upperAttrs xn

/-- `MT_TYPE`. -/
def mtType (attr : U32) : U32 := attr &&& mtTypeMask

/-- `xlat_desc`. A failed assertion is `none`. -/
def xlatDesc (regime : XlatRegime) (attr : U32) (addrPa : U64) (level : Nat) : Option U64 :=
  -- Make sure that the granularity is fine enough to map this address.
  if addrPa &&& xlatBlockMask level ≠ 0 then none
  else
    let desc := addrPa
    let desc := desc ||| (if level = xlatTableLevelMax then pageDesc else blockDesc)
    let desc := desc ||| lowerAttrs accessFlag
    let desc := desc ||| (if attr &&& mtNs ≠ 0 then lowerAttrs ns else 0)
    let desc := desc ||| (if attr &&& mtRw ≠ 0 then lowerAttrs apRw else lowerAttrs apRo)
    let desc :=
      if regime = .el1El0 then
        if attr &&& mtUser ≠ 0 then desc ||| lowerAttrs apAccessUnprivileged
        else desc ||| lowerAttrs apNoAccessUnprivileged
      else desc ||| lowerAttrs apOneVaRangeRes1
    if mtType attr = mtDevice then
      -- Device memory is always execute-never.
      let desc := desc ||| lowerAttrs (attrDeviceIndex ||| osh)
      some (desc ||| xlatArchRegimeGetXnDesc regime)
    else
      -- Read-write normal memory is always execute-never.
      let desc :=
        if attr &&& mtRw ≠ 0 ∨ attr &&& mtExecuteNever ≠ 0 then
          desc ||| xlatArchRegimeGetXnDesc regime
        else desc
      if mtType attr = mtMemory then
        some (desc ||| lowerAttrs (attrIwbwaOwbwaNtrIndex ||| ish))
      else if mtType attr = mtNonCacheable then
        some (desc ||| lowerAttrs (attrNonCacheableIndex ||| osh))
      else none

/-! ### A descriptor is an address with flags -/

/-- The memory types. -/
inductive MemType
  | device
  | nonCacheable
  | memory
  deriving DecidableEq, Repr

/-- The questions that `xlat_desc` asks of its arguments. -/
structure DescKind where
  regime : XlatRegime
  page : Bool
  nonSecure : Bool
  rw : Bool
  user : Bool
  executeNever : Bool
  type : MemType
  deriving DecidableEq, Repr

instance {P : XlatRegime → Prop} [DecidablePred P] : Decidable (∀ r, P r) :=
  decidable_of_iff (P .el1El0 ∧ P .el2 ∧ P .el3)
    ⟨fun h r => XlatRegime.casesOn r h.1 h.2.1 h.2.2, fun h => ⟨h _, h _, h _⟩⟩

instance {P : MemType → Prop} [DecidablePred P] : Decidable (∀ t, P t) :=
  decidable_of_iff (P .device ∧ P .nonCacheable ∧ P .memory)
    ⟨fun h t => MemType.casesOn t h.1 h.2.1 h.2.2, fun h => ⟨h _, h _, h _⟩⟩

/-- What holds of every kind of descriptor can be decided. -/
instance {P : DescKind → Prop} [DecidablePred P] : Decidable (∀ k, P k) :=
  decidable_of_iff (∀ a b c d e f g, P ⟨a, b, c, d, e, f, g⟩)
    ⟨fun h k => h k.1 k.2 k.3 k.4 k.5 k.6 k.7, fun h _ _ _ _ _ _ _ => h _⟩

/-- The kind of descriptor for attributes of a known memory type. -/
def DescKind.ofAttr (regime : XlatRegime) (attr : U32) (level : Nat) (type : MemType) :
    DescKind where
  regime := regime
  page := level = xlatTableLevelMax
  nonSecure := attr &&& mtNs ≠ 0
  rw := attr &&& mtRw ≠ 0
  user := attr &&& mtUser ≠ 0
  executeNever := attr &&& mtExecuteNever ≠ 0
  type := type

/-- The memory type of the attributes of a region, if it is one. -/
def memType (attr : U32) : Option MemType :=
  if mtType attr = mtDevice then some .device
  else if mtType attr = mtMemory then some .memory
  else if mtType attr = mtNonCacheable then some .nonCacheable
  else none

/-- The flags of a descriptor. -/
def descFlags (k : DescKind) : U64 :=
  (if k.page then pageDesc else blockDesc) ||| lowerAttrs accessFlag
  ||| (if k.nonSecure then lowerAttrs ns else 0)
  ||| (if k.rw then lowerAttrs apRw else lowerAttrs apRo)
  ||| (if k.regime = .el1El0 then
        if k.user then lowerAttrs apAccessUnprivileged else lowerAttrs apNoAccessUnprivileged
      else lowerAttrs apOneVaRangeRes1)
  ||| (if k.type = .device ∨ k.rw ∨ k.executeNever then xlatArchRegimeGetXnDesc k.regime else 0)
  ||| (match k.type with
      | .device => lowerAttrs (attrDeviceIndex ||| osh)
      | .nonCacheable => lowerAttrs (attrNonCacheableIndex ||| osh)
      | .memory => lowerAttrs (attrIwbwaOwbwaNtrIndex ||| ish))

theorem ite_or_or (c : Prop) [Decidable c] (x a b : U64) :
    (if c then x ||| a else x ||| b) = x ||| (if c then a else b) := by
  split <;> rfl

theorem ite_or_self (c : Prop) [Decidable c] (x a : U64) :
    (if c then x ||| a else x) = x ||| (if c then a else 0) := by
  split <;> simp

/-- **A descriptor is the output address with flags.** -/
theorem xlatDesc_eq (regime : XlatRegime) (attr : U32) (addrPa : U64) (level : Nat) :
    xlatDesc regime attr addrPa level =
      if addrPa &&& xlatBlockMask level = 0 then
        (memType attr).map fun t => addrPa ||| descFlags (.ofAttr regime attr level t)
      else none := by
  by_cases ha : addrPa &&& xlatBlockMask level = 0
  · simp only [xlatDesc, memType, ite_or_or, ite_or_self, ha, ne_eq, not_true_eq_false,
      if_false, if_true]
    by_cases hd : mtType attr = mtDevice
    · simp only [hd, if_true, Option.map_some, descFlags, DescKind.ofAttr, true_or,
        decide_not, Bool.not_eq_true', decide_eq_false_iff_not, decide_eq_true_eq]
      simp [BitVec.or_assoc, BitVec.or_comm (xlatArchRegimeGetXnDesc regime)]
    · by_cases hm : mtType attr = mtMemory
      · rw [if_neg hd, if_neg hd, if_pos hm, if_pos hm]
        simp [descFlags, DescKind.ofAttr, BitVec.or_assoc]
      · rw [if_neg hd, if_neg hd, if_neg hm, if_neg hm]
        split
        · simp [descFlags, DescKind.ofAttr, BitVec.or_assoc]
        · rfl
  · rw [xlatDesc, if_pos ha, if_neg ha]

theorem descFlags_and_descMask (k : DescKind) :
    descFlags k &&& descMask = if k.page then pageDesc else blockDesc := by
  revert k
  decide +kernel

theorem descFlags_and_tableAddrMask (k : DescKind) : descFlags k &&& tableAddrMask = 0 := by
  revert k
  decide +kernel

/-! ### Reading the address and the type back -/

theorem xlatAddrShift_le (level : Nat) : xlatAddrShift level ≤ 39 := by
  simp only [xlatAddrShift, xlatTableLevelMax]
  omega

theorem and_xlatBlockMask_eq_zero (level : Nat) (x : U64) :
    x &&& xlatBlockMask level = 0 ↔ xlatBlockSize level ∣ x.toNat :=
  and_lowMask_eq_zero (by have := xlatAddrShift_le level; omega) x

theorem pageSize_dvd_xlatBlockSize (level : Nat) : pageSize ∣ xlatBlockSize level :=
  pow_dvd_pow 2 (show 12 ≤ xlatAddrShift level from Nat.le_add_right _ _)

theorem getLsbD_tableAddrMask :
    ∀ i < 64, tableAddrMask.getLsbD i = (decide (12 ≤ i) && decide (i < 48)) := by
  decide

theorem and_tableAddrMask_eq_self {x : U64} (ha : pageSize ∣ x.toNat) (hx : x.toNat < 2 ^ 48) :
    x &&& tableAddrMask = x := by
  refine eq_of_getLsbD_eq fun i hi => ?_
  rw [getLsbD_and, getLsbD_tableAddrMask i hi]
  obtain ⟨q, hq⟩ := ha
  by_cases h12 : 12 ≤ i
  · by_cases h48 : i < 48
    · simp [h12, h48]
    · have hzero : x.getLsbD i = false := by
        exact Nat.testBit_lt_two_pow (hx.trans_le (Nat.pow_le_pow_right (by decide) (by omega)))
      simp [hzero]
  · have hzero : x.getLsbD i = false := by
      rw [← testBit_toNat, hq, show pageSize = 2 ^ 12 from rfl, Nat.testBit_two_pow_mul]
      simp [h12]
    simp [hzero]

theorem and_descMask_eq_zero {x : U64} (ha : pageSize ∣ x.toNat) : x &&& descMask = 0 := by
  have h4 : x &&& BitVec.ofNat 64 (2 ^ 2 - 1) = 0#64 :=
    (and_lowMask_eq_zero (by decide) x).mpr ((show 2 ^ 2 ∣ pageSize by decide).trans ha)
  exact h4

variable {regime : XlatRegime} {attr : U32} {pa desc : U64} {level : Nat}

section

variable (h : xlatDesc regime attr pa level = some desc)
include h

/-- What `xlat_desc` returns, when no assertion fails. -/
theorem xlatDesc_eq_some : xlatBlockSize level ∣ pa.toNat ∧
      ∃ t, memType attr = some t ∧ desc = pa ||| descFlags (.ofAttr regime attr level t) := by
  rw [xlatDesc_eq] at h
  split at h
  next ha =>
    obtain ⟨t, ht, rfl⟩ := Option.map_eq_some_iff.mp h
    exact ⟨(and_xlatBlockMask_eq_zero level pa).mp ha, t, ht, rfl⟩
  · cases h

theorem xlatDesc_and_descMask :
    desc &&& descMask = if level = xlatTableLevelMax then pageDesc else blockDesc := by
  obtain ⟨ha, t, -, rfl⟩ := xlatDesc_eq_some h
  rw [and_or_distrib_right, descFlags_and_descMask,
    and_descMask_eq_zero ((pageSize_dvd_xlatBlockSize level).trans ha)]
  simp [DescKind.ofAttr]

theorem xlatDesc_and_tableAddrMask (hpa : pa.toNat < 2 ^ 48) : desc &&& tableAddrMask = pa := by
  obtain ⟨ha, t, -, rfl⟩ := xlatDesc_eq_some h
  rw [and_or_distrib_right, descFlags_and_tableAddrMask,
    and_tableAddrMask_eq_self ((pageSize_dvd_xlatBlockSize level).trans ha) hpa]
  simp

end

/-- `xlat_desc` fails only for a memory type that does not exist. -/
theorem xlatDesc_isSome (ha : xlatBlockSize level ∣ pa.toNat) (ht : (memType attr).isSome) :
    (xlatDesc regime attr pa level).isSome := by
  rw [xlatDesc_eq, if_pos ((and_xlatBlockMask_eq_zero level pa).mpr ha)]
  simpa using ht

end TrustedFirmware.Xlat
