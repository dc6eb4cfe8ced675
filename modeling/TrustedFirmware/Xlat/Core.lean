import TrustedFirmware.Xlat.Desc

/-!
# Writing the translation tables (`xlat_tables_core.c`)

The recursive walks that map and unmap a region.

Both functions recurse from the initial lookup level down to level 3, so the model
recurses on the number of levels below the current one. The body of a walk over one
table takes the recursive call as an argument (`walk`), and the loop over the entries
of the table recurses on the entries that are left. `none` is a failed assertion or a
pointer that is not one of the context's tables. Virtual addresses are natural
numbers here: the walks only run on an initialised context, whose addresses are far
from the end of the 64-bit range. Cache and TLB maintenance has no counterpart.
-/

namespace TrustedFirmware.Xlat

/-! ### Tables -/

/-- `xlat_table_get_index`. -/
def xlatTableGetIndex (ctx : XlatCtx) (table : U64) : Option Nat :=
  (List.range ctx.tablesNum).find? fun i => ctx.tableAddr i = table

/-- `xlat_table_get_empty`. -/
def xlatTableGetEmpty (ctx : XlatCtx) (s : XlatState) : Option Nat :=
  (List.range ctx.tablesNum).find? fun i => s.tablesMappedRegions i = 0

/-- Add to the count of a sub-table; the base table has none. -/
def XlatState.addRegionsCount (s : XlatState) (n : Int) : TableRef → Option XlatState
  | .base => none
  | .sub j => some (s.addCount j n)

/-- `xlat_tables_find_start_va`. -/
def xlatTablesFindStartVa (mm : MmapRegion) (tableBaseVa level : Nat) : Nat :=
  if mm.baseVa.toNat > tableBaseVa then (mm.baseVa &&& ~~~ xlatBlockMask level).toNat
  else tableBaseVa

/-- `xlat_tables_va_to_index`. -/
def xlatTablesVaToIndex (tableBaseVa va level : Nat) : Nat :=
  (va - tableBaseVa) >>> xlatAddrShift level

/-- `action_t`. -/
inductive Action
  | none
  | writeBlockEntry
  | createNewTable
  | recurseIntoTable
  deriving DecidableEq, Repr

/-! ### Unmapping -/

/-- `xlat_tables_unmap_region_action`. -/
def xlatTablesUnmapRegionAction (mm : MmapRegion) (tableIdxVa tableIdxEndVa level : Nat)
    (descType : U64) : Option Action :=
  let regionEndVa := mm.endVa.toNat
  if mm.baseVa.toNat ≤ tableIdxVa ∧ regionEndVa ≥ tableIdxEndVa then
    -- Region covers all block
    if level = xlatTableLevelMax then
      if descType = pageDesc then some .writeBlockEntry else none
    else if descType = tableDesc then some .recurseIntoTable
    else if descType = blockDesc then some .writeBlockEntry
    else none
  else if mm.baseVa.toNat ≤ tableIdxEndVa ∨ regionEndVa ≥ tableIdxVa then
    -- Region partially covers block
    if level < xlatTableLevelMax ∧ descType = tableDesc then some .recurseIntoTable else none
  else some .none

/-- One entry of `xlat_tables_unmap_region`. -/
def unmapEntry (ctx : XlatCtx) (mm : MmapRegion) (level : Nat)
    (walk : XlatState → Nat → TableRef → Option XlatState)
    (s : XlatState) (ref : TableRef) (idx va : Nat) : Option XlatState :=
  let desc := s.read ref idx
  let endVa := va + xlatBlockSize level - 1
  match xlatTablesUnmapRegionAction mm va endVa level (desc &&& descMask) with
  | some .writeBlockEntry => some (s.write ref idx invalidDesc)
  | some .recurseIntoTable =>
    match xlatTableGetIndex ctx (desc &&& tableAddrMask) with
    | none => none
    | some j =>
      (walk s va (.sub j)).map fun s =>
        -- If the subtable is now empty, remove its reference.
        if s.tablesMappedRegions j = 0 then s.write ref idx invalidDesc else s
  | some .none => some s
  | some .createNewTable | none => none

/-- The loop of `xlat_tables_unmap_region`, with `n` entries left. -/
def unmapLoop (ctx : XlatCtx) (mm : MmapRegion) (level : Nat)
    (walk : XlatState → Nat → TableRef → Option XlatState) (ref : TableRef) :
    (n : Nat) → XlatState → (idx va : Nat) → Option XlatState
  | 0, s, _, _ => some s
  | n + 1, s, idx, va =>
    (unmapEntry ctx mm level walk s ref idx va).bind fun s =>
      -- If reached the end of the region, exit
      if mm.endVa.toNat ≤ va + xlatBlockSize level then some s
      else unmapLoop ctx mm level walk ref n s (idx + 1) (va + xlatBlockSize level)

/-- The body of `xlat_tables_unmap_region`. -/
def unmapTable (ctx : XlatCtx) (mm : MmapRegion) (level : Nat)
    (walk : XlatState → Nat → TableRef → Option XlatState)
    (s : XlatState) (tableBaseVa : Nat) (ref : TableRef) (entries : Nat) : Option XlatState :=
  if level < ctx.baseLevel then none
  else
    let va := xlatTablesFindStartVa mm tableBaseVa level
    let idx := xlatTablesVaToIndex tableBaseVa va level
    (unmapLoop ctx mm level walk ref (entries - idx) s idx va).bind fun s =>
      if level > ctx.baseLevel then s.addRegionsCount (-1) ref else some s

/-- `xlat_tables_unmap_region`, with `depth` levels below the one of the table. -/
def xlatTablesUnmapRegion (ctx : XlatCtx) (mm : MmapRegion) :
    (depth : Nat) → XlatState → Nat → TableRef → Nat → Option XlatState
  | 0 => unmapTable ctx mm 3 fun _ _ _ => none
  | depth + 1 => unmapTable ctx mm (2 - depth) fun s va ref =>
    xlatTablesUnmapRegion ctx mm depth s va ref xlatTableEntries

/-! ### Mapping -/

/-- `xlat_tables_map_region_action`. -/
def xlatTablesMapRegionAction (mm : MmapRegion) (descType destPa : U64)
    (tableEntryBaseVa level : Nat) : Option Action :=
  let mmEndVa := mm.endVa.toNat
  let tableEntryEndVa := tableEntryBaseVa + xlatBlockSize level - 1
  if mm.baseVa.toNat ≤ tableEntryBaseVa ∧ mmEndVa ≥ tableEntryEndVa then
    -- Table entry is covered by region
    if level = xlatTableLevelMax then
      if descType = pageDesc then some .none
      else if descType = invalidDesc then some .writeBlockEntry
      else none
    else if descType = tableDesc then some .recurseIntoTable
    else if descType = invalidDesc then
      if destPa &&& xlatBlockMask level ≠ 0 ∨ level < minLvlBlockDesc ∨
          mm.granularity.toNat < xlatBlockSize level then some .createNewTable
      else some .writeBlockEntry
    else if descType = blockDesc then some .none
    else none
  else if mm.baseVa.toNat ≤ tableEntryEndVa ∨ mmEndVa ≥ tableEntryBaseVa then
    -- Region partially covers table entry
    if level < xlatTableLevelMax then
      if descType = invalidDesc then some .createNewTable
      else if descType = tableDesc then some .recurseIntoTable
      else none
    else none
  else some .none

/-- The physical address that a region maps a virtual address to (`table_idx_pa`). -/
def MmapRegion.paAt (mm : MmapRegion) (va : Nat) : U64 :=
  mm.basePa + BitVec.ofNat 64 va - mm.baseVa

/-- What follows an entry whose sub-table was walked: go on if all of the entry has
been mapped, return otherwise. -/
def afterSubtable (blockEndVa : Nat) (r : XlatState × Nat) : XlatState × Option Nat :=
  (r.1, if r.2 ≠ blockEndVa then some r.2 else none)

/-- One entry of `xlat_tables_map_region`: the new state, and the address to return
if the walk ends here. -/
def mapEntry (ctx : XlatCtx) (mm : MmapRegion) (level : Nat)
    (walk : XlatState → Nat → TableRef → Option (XlatState × Nat))
    (s : XlatState) (ref : TableRef) (idx va : Nat) : Option (XlatState × Option Nat) :=
  let desc := s.read ref idx
  let pa := mm.paAt va
  let blockEndVa := va + xlatBlockSize level - 1
  match xlatTablesMapRegionAction mm (desc &&& descMask) pa va level with
  | some .writeBlockEntry =>
    (xlatDesc ctx.regime mm.attr pa level).map fun desc => (s.write ref idx desc, none)
  | some .createNewTable =>
    match xlatTableGetEmpty ctx s with
    -- Not enough free tables to map this region
    | none => some (s, some va)
    | some j =>
      (walk (s.write ref idx (tableDesc ||| ctx.tableAddr j)) va (.sub j)).map
        (afterSubtable blockEndVa)
  | some .recurseIntoTable =>
    match xlatTableGetIndex ctx (desc &&& tableAddrMask) with
    | none => none
    | some j => (walk s va (.sub j)).map (afterSubtable blockEndVa)
  | some .none => some (s, none)
  | none => none

/-- The loop of `xlat_tables_map_region`, with `n` entries left. -/
def mapLoop (ctx : XlatCtx) (mm : MmapRegion) (level : Nat)
    (walk : XlatState → Nat → TableRef → Option (XlatState × Nat)) (ref : TableRef) :
    (n : Nat) → XlatState → (idx va : Nat) → Option (XlatState × Nat)
  | 0, s, _, va => some (s, va - 1)
  | n + 1, s, idx, va =>
    match mapEntry ctx mm level walk s ref idx va with
    | none => none
    | some (s, some endVa) => some (s, endVa)
    | some (s, none) =>
      -- If reached the end of the region, exit
      if mm.endVa.toNat ≤ va + xlatBlockSize level then some (s, va + xlatBlockSize level - 1)
      else mapLoop ctx mm level walk ref n s (idx + 1) (va + xlatBlockSize level)

/-- The body of `xlat_tables_map_region`. -/
def mapTable (ctx : XlatCtx) (mm : MmapRegion) (level : Nat)
    (walk : XlatState → Nat → TableRef → Option (XlatState × Nat))
    (s : XlatState) (tableBaseVa : Nat) (ref : TableRef) (entries : Nat) :
    Option (XlatState × Nat) :=
  if level < ctx.baseLevel then none
  else
    let va := xlatTablesFindStartVa mm tableBaseVa level
    let idx := xlatTablesVaToIndex tableBaseVa va level
    (if level > ctx.baseLevel then s.addRegionsCount 1 ref else some s).bind fun s =>
      mapLoop ctx mm level walk ref (entries - idx) s idx va

/-- `xlat_tables_map_region`, with `depth` levels below the one of the table: the new
state, and the address of the last byte mapped or of the first entry not mapped. -/
def xlatTablesMapRegion (ctx : XlatCtx) (mm : MmapRegion) :
    (depth : Nat) → XlatState → Nat → TableRef → Nat → Option (XlatState × Nat)
  | 0 => mapTable ctx mm 3 fun _ _ _ => none
  | depth + 1 => mapTable ctx mm (2 - depth) fun s va ref =>
    xlatTablesMapRegion ctx mm depth s va ref xlatTableEntries

end TrustedFirmware.Xlat
