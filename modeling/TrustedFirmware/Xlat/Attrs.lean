import TrustedFirmware.Xlat.Mmap

/-!
# Reading and changing the attributes of mapped pages (`xlat_tables_utils.c`)

The search for the descriptor of an address, the decoding of a descriptor, and the
function that rewrites the descriptors of a range of pages.

As in `TrustedFirmware.Xlat.Core`, the search recurses on the number of levels below
the current one, and `none` is a failed assertion or a pointer that is not one of the
context's tables. The descriptor found is given by its table and index.
-/

namespace TrustedFirmware.Xlat

/-! ### Searching -/

/-- `XLAT_TABLE_IDX`. -/
def xlatTableIdx (virtualAddr : U64) (level : Nat) : Nat :=
  (virtualAddr >>> xlatAddrShift level &&& 0x1FF).toNat

/-- A place in the tables: where a descriptor is, and its lookup level. -/
structure TableEntry where
  ref : TableRef
  idx : Nat
  level : Nat
  deriving DecidableEq, Repr

/-- The loop of `find_xlat_table_entry`, with `depth` levels below the one of the
table; `some none` is the return value `NULL`. -/
def findXlatTableEntryFrom (ctx : XlatCtx) (s : XlatState) (virtualAddr : U64) :
    (depth : Nat) → TableRef → (entries : Nat) → Option (Option TableEntry)
  | 0, ref, entries =>
    let idx := xlatTableIdx virtualAddr 3
    if idx ≥ entries then some none
    else
      let descType := s.read ref idx &&& descMask
      if descType = invalidDesc then some none
      -- Only page descriptors allowed at the final lookup level.
      else if descType = pageDesc then some (some ⟨ref, idx, 3⟩)
      else none
  | depth + 1, ref, entries =>
    let idx := xlatTableIdx virtualAddr (2 - depth)
    if idx ≥ entries then some none
    else
      let desc := s.read ref idx
      let descType := desc &&& descMask
      if descType = invalidDesc then some none
      else if descType = blockDesc then some (some ⟨ref, idx, 2 - depth⟩)
      else if descType = tableDesc then
        match xlatTableGetIndex ctx (desc &&& tableAddrMask) with
        | none => none
        | some j => findXlatTableEntryFrom ctx s virtualAddr depth (.sub j) xlatTableEntries
      else none

/-- `find_xlat_table_entry`. -/
def findXlatTableEntry (ctx : XlatCtx) (s : XlatState) (virtualAddr : U64) :
    Option (Option TableEntry) :=
  findXlatTableEntryFrom ctx s virtualAddr ctx.baseDepth .base ctx.baseTableEntries

/-! ### Decoding -/

def attrIndexShift : Nat := 2
def attrIndexMask : U64 := 0x3
def ap2Shift : Nat := 7
def ap2Rw : U64 := 0
def ap1Shift : Nat := 6
def ap1AccessUnprivileged : U64 := 1
def nsShift : Nat := 5

/-- The memory attribute index of a descriptor. -/
def attrIndexOf (desc : U64) : U64 := desc >>> attrIndexShift &&& attrIndexMask

/-- The attributes that `xlat_get_mem_attributes_internal` reads off a descriptor. -/
def descAttributes (regime : XlatRegime) (desc : U64) : Option U32 :=
  let attrIndex := attrIndexOf desc
  let xnMask := xlatArchRegimeGetXnDesc regime
  let type : Option U32 :=
    if attrIndex = attrIwbwaOwbwaNtrIndex then some mtMemory
    else if attrIndex = attrNonCacheableIndex then some mtNonCacheable
    else if attrIndex = attrDeviceIndex then some mtDevice
    else none
  let executeNever : Option U32 :=
    if desc &&& xnMask = xnMask then some mtExecuteNever
    else if desc &&& xnMask = 0 then some 0
    else none
  match type, executeNever with
  | some type, some executeNever =>
    some (type
      ||| (if desc >>> ap2Shift &&& 1 = ap2Rw then mtRw else 0)
      ||| (if regime = .el1El0 ∧ desc >>> ap1Shift &&& 1 = ap1AccessUnprivileged then mtUser
          else 0)
      ||| (if desc >>> nsShift &&& 1 = 1 then mtNs else 0)
      ||| executeNever)
  | _, _ => none

/-- What `xlat_get_mem_attributes_internal` stores through its pointers. -/
structure MemAttributes where
  attributes : U32
  entry : TableEntry
  addrPa : U64

/-- `xlat_get_mem_attributes_internal`. -/
def xlatGetMemAttributesInternal (ctx : XlatCtx) (s : XlatState) (baseVa : U64) :
    Option (Except Int MemAttributes) :=
  if ¬ s.initialized then none
  else
    match findXlatTableEntry ctx s baseVa with
    | none => none
    | some none => some (.error (-eInval))
    | some (some entry) =>
      let desc := s.read entry.ref entry.idx
      (descAttributes ctx.regime desc).map fun attributes =>
        .ok ⟨attributes, entry, desc &&& tableAddrMask⟩

/-- `xlat_get_mem_attributes_ctx`. -/
def xlatGetMemAttributesCtx (ctx : XlatCtx) (s : XlatState) (baseVa : U64) :
    Option (Except Int U32) :=
  (xlatGetMemAttributesInternal ctx s baseVa).map (·.map MemAttributes.attributes)

/-! ### Changing -/

/-- The attributes that may be changed. -/
def mtChangeable : U32 := mtRw ||| mtExecuteNever ||| mtUser

/-- The sanity checks for one page: the page may be changed. -/
def changeablePage (ctx : XlatCtx) (s : XlatState) (baseVa : U64) (attr : U32) : Option Bool :=
  (findXlatTableEntry ctx s baseVa).map fun
    | none => false
    | some entry =>
      let desc := s.read entry.ref entry.idx
      -- Check that the page is mapped at page granularity.
      if desc &&& descMask ≠ pageDesc ∨ entry.level ≠ xlatTableLevelMax then false
      -- If the region type is device, it shouldn't be executable.
      else if attrIndexOf desc = attrDeviceIndex ∧ attr &&& mtExecuteNever = 0 then false
      else true

/-- The first loop of `xlat_change_mem_attributes_ctx`, with `n` pages left. -/
def changeablePages (ctx : XlatCtx) (s : XlatState) (attr : U32) : Nat → U64 → Option Bool
  | 0, _ => some true
  | n + 1, baseVa =>
    match changeablePage ctx s baseVa attr with
    | none => none
    | some false => some false
    | some true => changeablePages ctx s attr n (baseVa + BitVec.ofNat 64 pageSize)

/-- One page of the second loop: the descriptor is made invalid, then rebuilt. -/
def changePage (ctx : XlatCtx) (s : XlatState) (baseVa : U64) (attr : U32) : Option XlatState :=
  match xlatGetMemAttributesInternal ctx s baseVa with
  | some (.ok old) =>
    let newAttr := old.attributes &&& ~~~ mtChangeable
    -- Filter out the attributes that can't be changed.
    let newAttr := newAttr ||| (attr &&& mtChangeable)
    let s := s.write old.entry.ref old.entry.idx invalidDesc
    (xlatDesc ctx.regime newAttr old.addrPa old.entry.level).map
      (s.write old.entry.ref old.entry.idx)
  | _ => none

/-- The second loop of `xlat_change_mem_attributes_ctx`, with `n` pages left. -/
def changePages (ctx : XlatCtx) (attr : U32) : Nat → XlatState → U64 → Option XlatState
  | 0, s, _ => some s
  | n + 1, s, baseVa =>
    (changePage ctx s baseVa attr).bind fun s =>
      changePages ctx attr n s (baseVa + BitVec.ofNat 64 pageSize)

/-- `xlat_change_mem_attributes_ctx`. The index of the second loop is an `unsigned
int`: it never gets to a number of pages that needs more than 32 bits. -/
def xlatChangeMemAttributesCtx (ctx : XlatCtx) (s : XlatState) (baseVa size : U64) (attr : U32) :
    Option (XlatState × Int) :=
  if ¬ s.initialized then none
  else if ¬ isPageAligned baseVa then some (s, -eInval)
  else if size = 0 then some (s, -eInval)
  else if size.toNat % pageSize ≠ 0 then some (s, -eInval)
  else if attr &&& mtExecuteNever = 0 ∧ attr &&& mtRw ≠ 0 then some (s, -eInval)
  else
    let pagesCount := size.toNat / pageSize
    match changeablePages ctx s attr pagesCount baseVa with
    | none => none
    | some false => some (s, -eInval)
    | some true =>
      if pagesCount ≥ 2 ^ 32 then none
      else (changePages ctx attr pagesCount s baseVa).map fun s => (s, 0)

end TrustedFirmware.Xlat
