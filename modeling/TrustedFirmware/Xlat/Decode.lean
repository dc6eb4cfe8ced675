import TrustedFirmware.Xlat.Attrs

/-!
# Encoding and decoding of descriptors agree

`xlat_get_mem_attributes_internal` reads back the attributes that `xlat_desc` put into a
descriptor (`descAttributes_descFlags`), and rebuilding a descriptor from them gives the
same one (`xlatDesc_attributes`). Changing attributes is therefore a change of the
descriptor's kind (`DescKind.change`): the memory type and the security state stay.

No kind of descriptor is both writable and executable, and device memory is never
executable (`descFlags_protected`).
-/

namespace TrustedFirmware.Xlat

open Lib BitVec DescKind Option

/-! ### Attributes of a kind -/

/-- The attribute of a memory type. -/
def MemType.attr : MemType → U32
  | .device => mtDevice
  | .nonCacheable => mtNonCacheable
  | .memory => mtMemory

/-- The attributes that a descriptor of the kind carries. -/
def DescKind.attributes (k : DescKind) : U32 :=
  k.type.attr
  ||| (if k.rw then mtRw else 0)
  ||| (if k.regime = .el1El0 ∧ k.user then mtUser else 0)
  ||| (if k.nonSecure then mtNs else 0)
  ||| (if k.type = .device ∨ k.rw ∨ k.executeNever then mtExecuteNever else 0)

variable (k : DescKind)

/-- **Decoding gives the attributes back.** -/
theorem descAttributes_descFlags :
    descAttributes k.regime (descFlags k) = some k.attributes := by
  revert k
  decide +kernel

theorem memType_attributes : memType k.attributes = some k.type := by
  revert k
  decide +kernel

/-- **Encoding them again gives the same flags.** -/
theorem descFlags_attributes :
    descFlags { ofAttr k.regime k.attributes 3 k.type with page := k.page } = descFlags k := by
  revert k
  decide +kernel

theorem descFlags_congr {k k' : DescKind} (hreg : k.regime = k'.regime)
    (hpage : k.page = k'.page) (hattr : k.attributes = k'.attributes) :
    descFlags k = descFlags k' := by
  have htype : k.type = k'.type := by
    have hmem := memType_attributes k
    rw [hattr, memType_attributes k'] at hmem
    exact (some.inj hmem).symm
  rw [← descFlags_attributes k, ← descFlags_attributes k', hreg, hpage, htype, hattr]

/-! ### Protection -/

/-- The memory can be written. -/
def isWritable (desc : U64) : Bool := desc >>> ap2Shift &&& 1 = ap2Rw

/-- The memory can be executed at an exception level of the regime. -/
def isExecutable (regime : XlatRegime) (desc : U64) : Bool :=
  desc &&& xlatArchRegimeGetXnDesc regime ≠ xlatArchRegimeGetXnDesc regime

/-- The memory is device memory. -/
def isDevice (desc : U64) : Bool := attrIndexOf desc = attrDeviceIndex

/-- Memory that can be executed is neither writable nor device memory. -/
def Protected (regime : XlatRegime) (desc : U64) : Prop :=
  isExecutable regime desc = true → isWritable desc = false ∧ isDevice desc = false
  deriving Decidable

theorem isDevice_descFlags : isDevice (descFlags k) = decide (k.type = .device) := by
  revert k
  decide +kernel

/-- **No descriptor of the library is writable and executable**, nor an executable one
of device memory. -/
theorem descFlags_protected : Protected k.regime (descFlags k) := by
  revert k
  decide +kernel

/-! ### The address does not get in the way -/

section

variable {pa m : U64} {regime : XlatRegime}

/-- A page address of 48 bits. -/
def IsAddress (pa : U64) : Prop := pageSize ∣ pa.toNat ∧ pa.toNat < 2 ^ 48

section

variable (h : IsAddress pa)
include h

theorem IsAddress.and_eq_zero (hm : tableAddrMask &&& m = 0#64) : pa &&& m = 0#64 := by
  rw [← and_tableAddrMask_eq_self h.1 h.2, BitVec.and_assoc, hm, and_zero]

theorem IsAddress.or_and (flags : U64) (hm : tableAddrMask &&& m = 0#64) :
    (pa ||| flags) &&& m = flags &&& m := by
  rw [and_or_distrib_right, h.and_eq_zero hm, zero_or]

theorem IsAddress.or_shift_and (flags : U64) {n : Nat}
    (hshf : (m <<< n) >>> n = m) (hm : tableAddrMask &&& m <<< n = 0#64) :
    (pa ||| flags) >>> n &&& m = flags >>> n &&& m := by
  have hfld : ∀ x : U64, x >>> n &&& m = (x &&& m <<< n) >>> n := by
    intro x
    rw [ushiftRight_and_distrib, hshf]
  rw [hfld, hfld, h.or_and flags hm]

theorem IsAddress.attrIndexOf (flags : U64) : attrIndexOf (pa ||| flags) = attrIndexOf flags :=
  h.or_shift_and flags (by decide) (by decide)

omit h in
theorem tableAddrMask_and_xn (regime : XlatRegime) :
    tableAddrMask &&& xlatArchRegimeGetXnDesc regime = 0#64 := by
  cases regime <;> decide

theorem IsAddress.descAttributes (flags : U64) :
    descAttributes regime (pa ||| flags) = descAttributes regime flags := by
  have hbit : ∀ n ∈ [ap2Shift, ap1Shift, nsShift],
      (pa ||| flags) >>> n &&& 1 = flags >>> n &&& 1 := by
    intro n hn
    simp only [List.mem_cons, List.not_mem_nil, or_false] at hn
    rcases hn with rfl | rfl | rfl <;> exact h.or_shift_and flags (by decide) (by decide)
  simp only [Xlat.descAttributes, h.attrIndexOf flags,
    h.or_and flags (tableAddrMask_and_xn regime), hbit ap2Shift (by simp),
    hbit ap1Shift (by simp), hbit nsShift (by simp)]

theorem IsAddress.protected (k : DescKind) : Protected k.regime (pa ||| descFlags k) := by
  have hwr : (pa ||| descFlags k) >>> ap2Shift &&& 1 = descFlags k >>> ap2Shift &&& 1 :=
    h.or_shift_and (descFlags k) (by decide) (by decide)
  have hk := descFlags_protected k
  simp only [Protected, isExecutable, isWritable, isDevice, hwr, h.attrIndexOf,
    h.or_and (descFlags k) (tableAddrMask_and_xn k.regime)] at hk ⊢
  exact hk

theorem IsAddress.or_tableAddrMask (k : DescKind) :
    (pa ||| descFlags k) &&& tableAddrMask = pa := by
  rw [and_or_distrib_right, descFlags_and_tableAddrMask, and_tableAddrMask_eq_self h.1 h.2]
  exact or_zero

theorem IsAddress.or_descMask (k : DescKind) :
    (pa ||| descFlags k) &&& descMask = if k.page then pageDesc else blockDesc := by
  rw [h.or_and _ (by decide), descFlags_and_descMask]

end

end

/-! ### Changing attributes -/

/-- The attributes that a page gets. -/
def changedAttr (old attr : U32) : U32 := old &&& ~~~ mtChangeable ||| (attr &&& mtChangeable)

/-- The kind of the descriptor that a page gets. -/
def DescKind.change (k : DescKind) (attr : U32) : DescKind :=
  { k with
    rw := attr &&& mtRw ≠ 0
    user := attr &&& mtUser ≠ 0
    executeNever := attr &&& mtExecuteNever ≠ 0 }

/-- The attributes that can be changed and then read back. -/
def mtReported (regime : XlatRegime) : U32 :=
  mtRw ||| mtExecuteNever ||| (if regime = .el1El0 then mtUser else 0)

/-- The descriptor that a page gets. -/
def rebuiltDesc (regime : XlatRegime) (attr : U32) (desc : U64) : Option U64 :=
  (descAttributes regime desc).bind fun old =>
    xlatDesc regime (changedAttr old attr) (desc &&& tableAddrMask) xlatTableLevelMax

/-- The attributes that stay. -/
def mtKept : U32 := mtTypeMask ||| mtNs

section

variable {attr : U32} {k : DescKind} {pa : U64}

theorem nonSecure_attributes (k : DescKind) :
    decide (k.attributes &&& mtNs ≠ 0) = k.nonSecure := by
  revert k
  decide +kernel

theorem memType_changedAttr (k : DescKind) (attr : U32) :
    memType (changedAttr k.attributes attr) = some k.type := by
  have htype : mtType (changedAttr k.attributes attr) = mtType k.attributes :=
    select_and_of_disjoint (by decide)
  rw [← memType_attributes k]
  simp [memType, htype]

theorem changedAttr_selected (old attr : U32) : changedAttr old attr &&& mtRw = attr &&& mtRw ∧
    changedAttr old attr &&& mtUser = attr &&& mtUser ∧
    changedAttr old attr &&& mtExecuteNever = attr &&& mtExecuteNever := by
  refine ⟨?_, ?_, ?_⟩ <;> exact select_and_of_subset (by decide)

theorem ofAttr_changedAttr (k : DescKind) (attr : U32) (hpage : k.page = true) :
    ofAttr k.regime (changedAttr k.attributes attr) xlatTableLevelMax k.type = k.change attr := by
  have hns : changedAttr k.attributes attr &&& mtNs = k.attributes &&& mtNs :=
    select_and_of_disjoint (by decide)
  obtain ⟨hrw, huser, hxn⟩ := changedAttr_selected k.attributes attr
  simp only [ofAttr, change, hns, hrw, huser, hxn, nonSecure_attributes, hpage, decide_true]

/-- **The rebuilt descriptor** has the same address, and flags of the changed kind. -/
theorem xlatDesc_change (hpa : IsAddress pa) (hpage : k.page = true) (attr : U32) :
    xlatDesc k.regime (changedAttr k.attributes attr) pa xlatTableLevelMax =
      some (pa ||| descFlags (k.change attr)) := by
  have hali : pa &&& xlatBlockMask xlatTableLevelMax = 0 :=
    (and_xlatBlockMask_eq_zero xlatTableLevelMax pa).mpr hpa.1
  rw [xlatDesc_eq, if_pos hali, memType_changedAttr, map_some,
    ofAttr_changedAttr k attr hpage]

theorem rebuiltDesc_eq (hpa : IsAddress pa) (hpage : k.page = true) (attr : U32) :
    rebuiltDesc k.regime attr (pa ||| descFlags k) = some (pa ||| descFlags (k.change attr)) := by
  rw [rebuiltDesc, hpa.descAttributes, descAttributes_descFlags, bind_some,
    hpa.or_tableAddrMask, xlatDesc_change hpa hpage]

theorem isAddress_and (desc : U64) : IsAddress (desc &&& tableAddrMask) := by
  constructor
  · refine (and_lowMask_eq_zero (show 12 ≤ 64 by decide) _).mp ?_
    rw [BitVec.and_assoc]
    exact and_zero
  · exact Nat.and_le_right.trans_lt (by decide)

theorem rebuiltDesc_idem {regime : XlatRegime} {desc desc' : U64}
    (h : rebuiltDesc regime attr desc = some desc') :
    rebuiltDesc regime attr desc' = some desc' := by
  obtain ⟨old, -, hdesc⟩ := bind_eq_some_iff.mp h
  obtain ⟨-, t, -, rfl⟩ := xlatDesc_eq_some hdesc
  have hkind : (ofAttr regime (changedAttr old attr) xlatTableLevelMax t).change attr =
      .ofAttr regime (changedAttr old attr) xlatTableLevelMax t := by
    obtain ⟨hrw, huser, hxn⟩ := changedAttr_selected old attr
    simp [ofAttr, change, hrw, huser, hxn]
  have hpage : (ofAttr regime (changedAttr old attr) xlatTableLevelMax t).page = true := by
    simp [ofAttr]
  refine (rebuiltDesc_eq (isAddress_and desc) hpage attr).trans ?_
  rw [hkind]

theorem attributes_and_mtKept (k : DescKind) :
    k.attributes &&& mtKept = k.type.attr ||| (if k.nonSecure then mtNs else 0) := by
  revert k
  decide +kernel

theorem attributes_eq (k : DescKind) :
    k.attributes &&& mtKept ||| (k.attributes &&& mtReported k.regime) = k.attributes := by
  revert k
  decide +kernel

theorem and_mtReported (attr : U32) (regime : XlatRegime) : attr &&& mtReported regime =
      (if attr &&& mtRw ≠ 0 then mtRw else 0) |||
        (if attr &&& mtExecuteNever ≠ 0 then mtExecuteNever else 0) |||
        (if regime = .el1El0 ∧ attr &&& mtUser ≠ 0 then mtUser else 0) := by
  have hrw : attr &&& mtRw = if attr &&& mtRw ≠ 0 then mtRw else 0 := and_twoPow_eq_ite attr 3
  have hxn : attr &&& mtExecuteNever = if attr &&& mtExecuteNever ≠ 0 then mtExecuteNever else 0 :=
    and_twoPow_eq_ite attr 5
  have huser : attr &&& mtUser = if attr &&& mtUser ≠ 0 then mtUser else 0 :=
    and_twoPow_eq_ite attr 6
  rw [mtReported, and_or_distrib_left, and_or_distrib_left]
  refine congrArg₂ _ (congrArg₂ _ hrw hxn) ?_
  by_cases hreg : regime = .el1El0
  · simp only [hreg, if_true, true_and]
    exact huser
  · simp only [hreg, if_false, false_and]
    exact and_zero

/-- The attributes of a kind that is executable only where the checks allow it. -/
theorem attributes_of_checked (k : DescKind) (hwx : k.executeNever = false → k.rw = false)
    (hdev : k.type = .device → k.executeNever = true) :
    k.attributes = k.type.attr ||| (if k.nonSecure then mtNs else 0) |||
      ((if k.rw then mtRw else 0) ||| (if k.executeNever then mtExecuteNever else 0) |||
        (if k.regime = .el1El0 ∧ k.user then mtUser else 0)) := by
  revert k
  decide +kernel

section

variable (hwx : ¬ (attr &&& mtExecuteNever = 0 ∧ attr &&& mtRw ≠ 0))
  (hdev : k.type = .device → attr &&& mtExecuteNever ≠ 0)
include hwx hdev

/-- **What a page reports after a change** that passed the checks: the new access
attributes, and the old memory type and security state. -/
theorem attributes_change :
    (k.change attr).attributes = k.attributes &&& mtKept ||| (attr &&& mtReported k.regime) := by
  rw [attributes_and_mtKept, and_mtReported, attributes_of_checked (k.change attr)]
  · simp only [change, decide_eq_true_eq]
    congr
  · intro hxn
    have hxn' : attr &&& mtExecuteNever = 0 := by simpa [change] using hxn
    have hrw : attr &&& mtRw = 0 := by
      by_contra hrw
      exact hwx ⟨hxn', hrw⟩
    exact decide_eq_false (not_not.mpr hrw)
  · exact fun htype => decide_eq_true (hdev htype)

omit hwx hdev in
theorem mtKept_and_mtReported (regime : XlatRegime) : mtKept &&& mtReported regime = 0#32 := by
  cases regime <;> decide

theorem attributes_change_eq_iff : (k.change attr).attributes = k.attributes ↔
      k.attributes &&& mtReported k.regime = attr &&& mtReported k.regime := by
  have hch := attributes_change hwx hdev
  constructor
  · intro heq
    rw [← heq, hch, and_or_distrib_right, BitVec.and_assoc, BitVec.and_assoc,
      BitVec.and_self, mtKept_and_mtReported, and_zero, zero_or]
  · intro hattr
    rw [hch, ← hattr, attributes_eq]

end

end

end TrustedFirmware.Xlat
