import Mathlib.Tactic.IntervalCases
import TrustedFirmware.Lib.Radix
import TrustedFirmware.Xlat.Mmap

/-!
# The tables as a tree

What the base table and the sub-tables hold together is a radix tree whose leaves are
block and page descriptors (`XlatState.node`): this module reads it off the memory, and
says what a change of some tables does to it.

A table counts as linked when its exact table descriptor is found, so that the tree
determines every descriptor of its tables. A tree of depth `d` belongs to an entry of
lookup level `3 - d`.
-/

namespace TrustedFirmware.Xlat

open Lib Lib.Radix List XlatState

/-! ### Geometry -/

/-- Pages of 4 KiB and tables of 512 entries. -/
def geo : Geometry where
  page := pageSize
  fan := xlatTableEntries
  page_pos := by decide
  fan_pos := by decide

theorem xlatBlockSize_eq {d : Nat} (hd : d ≤ 3) : xlatBlockSize (3 - d) = geo.size d := by
  interval_cases d <;> rfl

theorem pageSize_dvd_size (d : Nat) : pageSize ∣ geo.size d := dvd_mul_right _ _

/-- The addresses of a region. -/
def MmapRegion.range (mm : MmapRegion) : Range :=
  ⟨mm.baseVa.toNat, mm.baseVa.toNat + mm.size.toNat⟩

/-! ### Table descriptors -/

namespace XlatCtx

variable (ctx : XlatCtx)

/-- The descriptor that points to `tables[j]`. -/
def tableDescOf (j : Nat) : U64 := tableDesc ||| ctx.tableAddr j

/-- The table that a descriptor points to, if it is a table descriptor. -/
def tableOf (desc : U64) : Option Nat :=
  (range ctx.tablesNum).find? fun j => ctx.tableDescOf j = desc

variable {ctx} {j k : Nat}

section

variable (hj : j < ctx.tablesNum)
include hj

theorem tableAddr_lt : ctx.tablesAddr + j * pageSize < 2 ^ 48 := by
  have hle := ctx.tablesAddr_le
  have hmul : (j + 1) * pageSize ≤ ctx.tablesNum * pageSize := Nat.mul_le_mul_right _ hj
  have hpos : 0 < pageSize := by decide
  rw [Nat.succ_mul] at hmul
  omega

theorem toNat_tableAddr : (ctx.tableAddr j).toNat = ctx.tablesAddr + j * pageSize := by
  have hlt := tableAddr_lt hj
  exact Nat.mod_eq_of_lt (by omega)

theorem pageSize_dvd_tableAddr : pageSize ∣ (ctx.tableAddr j).toNat := by
  rw [toNat_tableAddr hj]
  exact Nat.dvd_add ctx.tablesAddr_aligned (dvd_mul_left _ _)

theorem tableAddr_inj (hk : k < ctx.tablesNum) (h : ctx.tableAddr j = ctx.tableAddr k) : j = k := by
  have hnat := congrArg BitVec.toNat h
  rw [toNat_tableAddr hj, toNat_tableAddr hk] at hnat
  exact Nat.eq_of_mul_eq_mul_right (show 0 < pageSize by decide) (by omega)

theorem tableDescOf_and_descMask : ctx.tableDescOf j &&& descMask = tableDesc := by
  rw [tableDescOf, BitVec.and_or_distrib_right, and_descMask_eq_zero (pageSize_dvd_tableAddr hj)]
  rfl

theorem tableDescOf_and_tableAddrMask : ctx.tableDescOf j &&& tableAddrMask = ctx.tableAddr j := by
  rw [tableDescOf, BitVec.and_or_distrib_right,
    and_tableAddrMask_eq_self (pageSize_dvd_tableAddr hj)
      (by rw [toNat_tableAddr hj]; exact tableAddr_lt hj)]
  simp [tableDesc, tableAddrMask]

theorem tableDescOf_ne_invalid : ctx.tableDescOf j ≠ invalidDesc := by
  intro h0
  have hmask := tableDescOf_and_descMask hj
  rw [h0] at hmask
  cases hmask

end

theorem tableOf_eq_some {desc : U64} (h : ctx.tableOf desc = some j) :
    j < ctx.tablesNum ∧ desc = ctx.tableDescOf j :=
  ⟨mem_range.mp (mem_of_find?_eq_some h), (by simpa using find?_some h : _ = _).symm⟩

theorem tableOf_tableDescOf (hj : j < ctx.tablesNum) :
    ctx.tableOf (ctx.tableDescOf j) = some j := by
  cases h : ctx.tableOf (ctx.tableDescOf j) with
  | none =>
    rw [tableOf, find?_eq_none] at h
    exact absurd (decide_eq_true rfl) (h j (mem_range.mpr hj))
  | some =>
    obtain ⟨hk, hdesc⟩ := tableOf_eq_some h
    have haddr := congrArg (· &&& tableAddrMask) hdesc
    simp only [tableDescOf_and_tableAddrMask hj, tableDescOf_and_tableAddrMask hk] at haddr
    rw [tableAddr_inj hj hk haddr]

end XlatCtx

variable {ctx : XlatCtx} {j : Nat}

theorem xlatTableGetIndex_tableDescOf (hj : j < ctx.tablesNum) :
    xlatTableGetIndex ctx (ctx.tableDescOf j &&& tableAddrMask) = some j := by
  rw [XlatCtx.tableDescOf_and_tableAddrMask hj]
  cases h : xlatTableGetIndex ctx (ctx.tableAddr j) with
  | none =>
    rw [xlatTableGetIndex, find?_eq_none] at h
    exact absurd (decide_eq_true rfl) (h j (mem_range.mpr hj))
  | some k =>
    have hk : k < ctx.tablesNum := mem_range.mp (mem_of_find?_eq_some h)
    have haddr : ctx.tableAddr k = ctx.tableAddr j := by simpa using find?_some h
    rw [XlatCtx.tableAddr_inj hk hj haddr]

/-! ### Reading the tree off the memory -/

/-- What the descriptor of an entry of depth `d` stands for. -/
def XlatState.node (ctx : XlatCtx) (s : XlatState) : (d : Nat) → U64 → Node U64 d
  | 0, desc => if desc = invalidDesc then .empty else .leaf desc
  | d + 1, desc =>
    if desc = invalidDesc then .empty
    else match ctx.tableOf desc with
      | some j => .table j (s.tablesMappedRegions j) fun i =>
        if i < xlatTableEntries then s.node ctx d (s.tables j i) else .empty
      | none => .leaf desc

/-- What the entries of a table with `n` entries stand for. -/
def XlatState.kids (ctx : XlatCtx) (s : XlatState) (d : Nat) (ref : TableRef) (n i : Nat) :
    Node U64 d :=
  if i < n then s.node ctx d (s.read ref i) else .empty

variable {ref : TableRef} {i : Nat}

variable {s s' : XlatState} {d : Nat} {desc : U64}

theorem XlatState.kids_of_lt {n : Nat} (h : i < n) :
    s.kids ctx d ref n i = s.node ctx d (s.read ref i) := if_pos h

theorem XlatState.kids_of_not_lt {n : Nat} (h : ¬ i < n) : s.kids ctx d ref n i = .empty := if_neg h

@[simp] theorem XlatState.node_invalid : s.node ctx d invalidDesc = .empty := by
  cases d <;> simp [node]

/-- A table descriptor stands for the table. -/
theorem XlatState.node_tableDescOf (hj : j < ctx.tablesNum) :
    s.node ctx (d + 1) (ctx.tableDescOf j) =
      .table j (s.tablesMappedRegions j) (s.kids ctx d (.sub j) xlatTableEntries) := by
  rw [node, if_neg (XlatCtx.tableDescOf_ne_invalid hj), XlatCtx.tableOf_tableDescOf hj]
  rfl

theorem XlatState.node_eq_empty (h : s.node ctx d desc = .empty) : desc = invalidDesc := by
  by_contra hne
  cases d with
  | zero => simp [node, hne] at h
  | succ =>
    rw [node, if_neg hne] at h
    split at h <;> cases h

theorem XlatState.node_eq_leaf {a : U64} (h : s.node ctx d desc = .leaf a) : desc = a := by
  obtain rfl | h0 := eq_or_ne desc invalidDesc
  · simp at h
  · cases d with
    | zero =>
      rw [node, if_neg h0] at h
      exact Node.leaf.inj h
    | succ =>
      rw [node, if_neg h0] at h
      split at h
      · cases h
      · exact Node.leaf.inj h

theorem XlatState.node_eq_table {c : Int} {kids : Nat → Node U64 d}
    (h : s.node ctx (d + 1) desc = .table j c kids) :
    j < ctx.tablesNum ∧ desc = ctx.tableDescOf j ∧ c = s.tablesMappedRegions j ∧
      kids = s.kids ctx d (.sub j) xlatTableEntries := by
  obtain rfl | h0 := eq_or_ne desc invalidDesc
  · simp at h
  · rw [node, if_neg h0] at h
    split at h
    next k hk =>
      obtain ⟨hlt, hdesc⟩ := XlatCtx.tableOf_eq_some hk
      injection h with _ hj hc hkids
      subst hj
      exact ⟨hlt, hdesc, hc.symm, hkids.symm⟩
    · cases h

theorem XlatState.node_inj {desc' : U64} (h : s'.node ctx d desc' = s.node ctx d desc) :
    desc' = desc := by
  generalize hn : s.node ctx d desc = v at h
  cases v with
  | empty =>
    rw [node_eq_empty hn, node_eq_empty h]
  | leaf =>
    rw [node_eq_leaf hn, node_eq_leaf h]
  | table =>
    rw [(node_eq_table hn).2.1, (node_eq_table h).2.1]

/-- A descriptor that has the type bits of a block or a page stands for itself. -/
theorem XlatState.node_leaf (h : desc &&& descMask = if d = 0 then pageDesc else blockDesc) :
    s.node ctx d desc = .leaf desc := by
  have h0 : desc ≠ invalidDesc := by
    rintro rfl
    split at h <;> cases h
  cases d with
  | zero => rw [node, if_neg h0]
  | succ d =>
    rw [node, if_neg h0]
    split
    next j hj =>
      obtain ⟨hlt, rfl⟩ := XlatCtx.tableOf_eq_some hj
      rw [XlatCtx.tableDescOf_and_descMask hlt, if_neg (Nat.succ_ne_zero d)] at h
      cases h
    · rfl

/-- Induction over the way to a table of a tree. -/
theorem XlatState.has_induction {P : Nat → U64 → Prop}
    (self : ∀ d, j < ctx.tablesNum → P (d + 1) (ctx.tableDescOf j))
    (below : ∀ d k i, k < ctx.tablesNum → i < xlatTableEntries → P d (s.tables k i) →
      P (d + 1) (ctx.tableDescOf k)) (h : (s.node ctx d desc).Has j) : P d desc := by
  induction d generalizing desc with
  | zero =>
    by_cases h0 : desc = invalidDesc <;> simp [node, h0] at h
  | succ d ih =>
    cases hn : s.node ctx (d + 1) desc with
    | empty | leaf => simp [hn] at h
    | table k =>
      obtain ⟨hk, rfl, -, rfl⟩ := node_eq_table hn
      rw [hn] at h
      rcases h with rfl | ⟨i, hi⟩
      · exact self d hk
      · by_cases hlt : i < xlatTableEntries
        · rw [kids_of_lt hlt] at hi
          exact below d k i hk hlt (ih hi)
        · rw [kids_of_not_lt hlt] at hi
          exact hi.elim

theorem XlatState.has_lt (h : (s.node ctx d desc).Has j) : j < ctx.tablesNum :=
  has_induction (P := fun _ _ => j < ctx.tablesNum) (fun _ hj => hj) (fun _ _ _ _ _ hj => hj) h

/-- The tables of a tree have the counts of the memory. -/
theorem XlatState.hasCount (h : (s.node ctx d desc).Has j) :
    (s.node ctx d desc).HasCount geo j (s.tablesMappedRegions j) := by
  refine has_induction (P := fun d desc => (s.node ctx d desc).HasCount geo j _)
    (fun d hj => ?_) (fun d k i hk hi ih => ?_) h
  · rw [node_tableDescOf hj]
    exact .inl ⟨rfl, rfl⟩
  · rw [node_tableDescOf hk]
    refine .inr ⟨i, hi, ?_⟩
    rw [kids_of_lt hi]
    exact ih

theorem XlatState.node_congr (h : ∀ j, (s.node ctx d desc).Has j →
      s'.tablesMappedRegions j = s.tablesMappedRegions j ∧ s'.tables j = s.tables j) :
    s'.node ctx d desc = s.node ctx d desc := by
  induction d generalizing desc with
  | zero => rfl
  | succ d ih =>
    cases hn : s.node ctx (d + 1) desc with
    | empty => rw [node_eq_empty hn, node_invalid]
    | leaf =>
      have h0 : desc ≠ invalidDesc := by
        rintro rfl
        simp at hn
      rw [node, if_neg h0] at hn ⊢
      split at hn
      · cases hn
      · exact hn
    | table k =>
      obtain ⟨hk, rfl, rfl, rfl⟩ := node_eq_table hn
      rw [hn] at h
      obtain ⟨hcnt, htab⟩ := h k (.inl rfl)
      rw [node_tableDescOf hk, hcnt]
      congr 1
      funext i
      by_cases hlt : i < xlatTableEntries
      · rw [kids_of_lt hlt, kids_of_lt hlt]
        show s'.node ctx d (s'.tables k i) = s.node ctx d (s.tables k i)
        rw [htab]
        refine ih fun j hj => h j (.inr ⟨i, ?_⟩)
        rw [kids_of_lt hlt]
        exact hj
      · rw [kids_of_not_lt hlt, kids_of_not_lt hlt]

/-! ### Changing some tables -/

/-- Nothing but the tables changes. -/
structure XlatState.SameRegions (s s' : XlatState) : Prop where
  mmap : s'.mmap = s.mmap
  maxPa : s'.maxPa = s.maxPa
  maxVa : s'.maxVa = s.maxVa
  initialized : s'.initialized = s.initialized

/-- From `s` to `s'`, only the entries of `ref` from `i₀` up to `i₁` change, and the
tables in `F`, each of which has `δ` more regions. -/
structure Touch (δ : Int) (F : Nat → Prop) (s s' : XlatState) (ref : TableRef) (i₀ i₁ : Nat) :
    Prop where
  cells : ∀ i, ¬ (i₀ ≤ i ∧ i < i₁) → s'.read ref i = s.read ref i
  tables : ∀ j, .sub j ≠ ref → ¬ F j → s'.tables j = s.tables j
  base : ref ≠ .base → s'.baseTable = s.baseTable
  count_in : ∀ j, F j → s'.tablesMappedRegions j = s.tablesMappedRegions j + δ
  count_out : ∀ j, ¬ F j → s'.tablesMappedRegions j = s.tablesMappedRegions j
  own : ∀ j, .sub j = ref → ¬ F j
  regions : s.SameRegions s'

/-- The entries of a table lead to separate trees, whose tables are in use. -/
structure TableOk (ctx : XlatCtx) (s : XlatState) (ref : TableRef) (d n : Nat) : Prop where
  apart : ∀ i k j, i ≠ k → (s.kids ctx d ref n i).Has j → ¬ (s.kids ctx d ref n k).Has j
  own : ∀ i j, .sub j = ref → ¬ (s.kids ctx d ref n i).Has j
  distinct : ∀ i, (s.kids ctx d ref n i).Distinct
  pos : ∀ i j, (s.kids ctx d ref n i).Has j → 0 < s.tablesMappedRegions j
  ownPos : ∀ j, .sub j = ref → 0 < s.tablesMappedRegions j

/-- A table that is not in use holds nothing. -/
def FreeZero (ctx : XlatCtx) (s : XlatState) : Prop :=
  ∀ j < ctx.tablesNum, s.tablesMappedRegions j = 0 →
    ∀ i < xlatTableEntries, s.tables j i = invalidDesc

/-- The number of tables that are not in use. -/
def freeCount (ctx : XlatCtx) (s : XlatState) : Nat :=
  (range ctx.tablesNum).countP fun j => s.tablesMappedRegions j = 0

/-- The two states have the same tables and counts. -/
structure XlatState.SameTables (s s' : XlatState) : Prop where
  tables : s'.tables = s.tables
  counts : s'.tablesMappedRegions = s.tablesMappedRegions
  base : s'.baseTable = s.baseTable

theorem XlatState.SameTables.kids_eq {s s' : XlatState} (h : s.SameTables s')
    (d : Nat) (ref : TableRef) (n i : Nat) : s'.kids ctx d ref n i = s.kids ctx d ref n i := by
  have hread : s'.read ref i = s.read ref i := by
    cases ref with
    | base => exact congrFun h.base i
    | sub j => exact congrFun (congrFun h.tables j) i
  unfold kids
  rw [hread]
  refine if_congr Iff.rfl (node_congr fun j _ => ?_) rfl
  exact ⟨congrFun h.counts j, congrFun h.tables j⟩

theorem TableOk.congr {s s' : XlatState} {d n : Nat} (hok : TableOk ctx s ref d n)
    (hkids : ∀ i, s'.kids ctx d ref n i = s.kids ctx d ref n i)
    (hpos : ∀ i j, (s.kids ctx d ref n i).Has j → 0 < s'.tablesMappedRegions j)
    (hown : ∀ j, .sub j = ref → 0 < s'.tablesMappedRegions j) : TableOk ctx s' ref d n := by
  rw [← funext hkids] at hpos
  obtain ⟨hap, hno, hdist, -, -⟩ := hok
  simp only [← hkids] at hap hno hdist
  exact ⟨hap, hno, hdist, hpos, hown⟩

theorem TableOk.of_same {s s' : XlatState} {d n : Nat} (hok : TableOk ctx s ref d n)
    (h : s.SameTables s') : TableOk ctx s' ref d n := by
  refine hok.congr (h.kids_eq d ref n) ?_ ?_
  · rw [h.counts]
    exact hok.pos
  · rw [h.counts]
    exact hok.ownPos

theorem XlatState.SameRegions.refl (s : XlatState) : s.SameRegions s := ⟨rfl, rfl, rfl, rfl⟩

theorem XlatState.SameRegions.trans {s s' s'' : XlatState} (h : s.SameRegions s')
    (h' : s'.SameRegions s'') : s.SameRegions s'' :=
  ⟨h'.mmap.trans h.mmap, h'.maxPa.trans h.maxPa, h'.maxVa.trans h.maxVa,
    h'.initialized.trans h.initialized⟩

variable {δ : Int} {F G : Nat → Prop} {s'' : XlatState} {i₀ i₁ i₂ n : Nat}

theorem Touch.refl (δ : Int) (s : XlatState) (ref : TableRef) (i₀ i₁ : Nat) :
    Touch δ (fun _ => False) s s ref i₀ i₁ :=
  ⟨fun _ _ => rfl, fun _ _ _ => rfl, fun _ => rfl, fun _ h => h.elim, fun _ _ => rfl,
    fun _ _ h => h, .refl s⟩

/-- One descriptor is written. -/
theorem Touch.write (δ : Int) (s : XlatState) (ref : TableRef) (i : Nat) (desc : U64) :
    Touch δ (fun _ => False) s (s.write ref i desc) ref i (i + 1) where
  cells k hk := s.read_write_of_ne ref i desc ref k (Or.inr (by omega))
  tables j hj _ := funext fun k => s.read_write_of_ne ref i desc (.sub j) k (Or.inl hj)
  base hb := funext fun k => s.read_write_of_ne ref i desc .base k (Or.inl hb.symm)
  count_in _ h := h.elim
  count_out j _ := by rw [s.tablesMappedRegions_write]
  own _ _ h := h
  regions := by cases ref <;> exact ⟨rfl, rfl, rfl, rfl⟩

/-- An entry is made to point to sub-table `j`, which gets a region more. -/
theorem Touch.link (s : XlatState) (desc : U64) (href : .sub j ≠ ref) (δ : Int) :
    Touch δ (· = j) s ((s.write ref i desc).addCount j δ) ref i (i + 1) := by
  have h := Touch.write δ s ref i desc
  refine ⟨fun k hk => ?_, fun k hk hkj => h.tables k hk id, h.base, ?_, ?_, ?_, ?_⟩
  · exact h.cells k hk
  · rintro k rfl
    rw [tablesMappedRegions_addCount_self, tablesMappedRegions_write]
  · intro k hk
    rw [tablesMappedRegions_addCount_of_ne _ hk, tablesMappedRegions_write]
  · rintro k hk rfl
    exact href hk
  · exact ⟨h.regions.mmap, h.regions.maxPa, h.regions.maxVa, h.regions.initialized⟩

/-- Sub-table `j`, to which an entry points, gets a region more. -/
theorem Touch.count (s : XlatState) (href : .sub j ≠ ref) (δ : Int) :
    Touch δ (· = j) s (s.addCount j δ) ref i (i + 1) := by
  refine ⟨fun k _ => read_addCount _ _ _ _ _, fun _ _ _ => rfl, fun _ => rfl, ?_, ?_,
    ?_, ⟨rfl, rfl, rfl, rfl⟩⟩
  · rintro k rfl
    exact tablesMappedRegions_addCount_self _ _ _
  · intro k hk
    exact tablesMappedRegions_addCount_of_ne _ hk _
  · rintro k hk rfl
    exact href hk

/-- Nothing changes, whatever the table that an entry points to. -/
theorem Touch.stay (s : XlatState) (href : .sub j ≠ ref) (i : Nat) :
    Touch 0 (· = j) s s ref i (i + 1) := by
  refine ⟨fun _ _ => rfl, fun _ _ _ => rfl, fun _ => rfl, fun k _ => (add_zero _).symm,
    fun _ _ => rfl, ?_, .refl s⟩
  intro k hk hkj
  exact href (hkj ▸ hk)

/-- Where no count changes, more tables may be named. -/
theorem Touch.widen (h : Touch 0 F s s' ref i₀ i₁) (hFG : ∀ j, F j → G j)
    (hown : ∀ j, .sub j = ref → ¬ G j) : Touch 0 G s s' ref i₀ i₁ where
  cells := h.cells
  tables j hj hG := h.tables j hj fun hF => hG (hFG j hF)
  base := h.base
  count_in j _ := by
    by_cases hF : F j
    · exact h.count_in j hF
    · rw [h.count_out j hF, add_zero]
  count_out j hG := h.count_out j fun hF => hG (hFG j hF)
  own := hown
  regions := h.regions

section

variable (h : Touch δ F s s' ref i₀ i₁)
include h

theorem Touch.mono (h12 : i₁ ≤ i₂) : Touch δ F s s' ref i₀ i₂ :=
  { h with cells := fun i hi => h.cells i (by omega) }

theorem Touch.trans (h' : Touch δ G s' s'' ref i₁ i₂)
    (h01 : i₀ ≤ i₁) (h12 : i₁ ≤ i₂) (hdisj : ∀ j, F j → ¬ G j) :
    Touch δ (fun j => F j ∨ G j) s s'' ref i₀ i₂ where
  cells i hi := (h'.cells i (by omega)).trans (h.cells i (by omega))
  tables j hj hF :=
    (h'.tables j hj fun hG => hF (.inr hG)).trans (h.tables j hj fun hF' => hF (.inl hF'))
  base hb := (h'.base hb).trans (h.base hb)
  count_in j hj := by
    rcases hj with hF | hG
    · rw [h'.count_out j (hdisj j hF), h.count_in j hF]
    · rw [h'.count_in j hG, h.count_out j fun hF => hdisj j hF hG]
  count_out j hj := by
    rw [h'.count_out j fun hG => hj (.inr hG), h.count_out j fun hF => hj (.inl hF)]
  own j hj := by
    rintro (hF | hG)
    · exact h.own j hj hF
    · exact h'.own j hj hG
  regions := h.regions.trans h'.regions

theorem Touch.congr (hFG : ∀ j, F j ↔ G j) : Touch δ G s s' ref i₀ i₁ := by
  rw [← funext fun j => propext (hFG j)]
  exact h

theorem Touch.symm : Touch (-δ) F s' s ref i₀ i₁ where
  cells k hk := (h.cells k hk).symm
  tables j hj hF := (h.tables j hj hF).symm
  base hb := (h.base hb).symm
  count_in j hj := by rw [h.count_in j hj, add_neg_cancel_right]
  count_out j hj := (h.count_out j hj).symm
  own := h.own
  regions := ⟨h.regions.mmap.symm, h.regions.maxPa.symm, h.regions.maxVa.symm,
    h.regions.initialized.symm⟩

omit h in
/-- A change inside sub-table `j` leaves the table of the entry that points to it as it is. -/
theorem Touch.read_eq {a c : Nat} (h : Touch δ G s s' (.sub j) a c) (href : .sub j ≠ ref)
    (hown : ∀ k, .sub k = ref → ¬ G k) (k : Nat) : s'.read ref k = s.read ref k := by
  cases ref with
  | base => exact congrFun (h.base (by simp)) k
  | sub r => exact congrFun (h.tables r (fun hr => href hr.symm) (hown r rfl)) k

omit h in
/-- A change inside sub-table `j`, seen from the entry that points to it: the entry
and the count of `j` change first, then what is below. -/
theorem Touch.enter {a c : Nat} (h : Touch δ (· = j) s s' ref i (i + 1))
    (h' : Touch δ G s' s'' (.sub j) a c) (href : .sub j ≠ ref)
    (hown : ∀ k, .sub k = ref → ¬ G k) : Touch δ (fun k => k = j ∨ G k) s s'' ref i (i + 1) ∧
      ∀ k, s''.read ref k = s'.read ref k := by
  have hread := h'.read_eq href hown
  refine ⟨⟨fun k hk => (hread k).trans (h.cells k hk), ?_, ?_, ?_, ?_, ?_, ?_⟩, hread⟩
  · intro k hk hF
    have hkj : k ≠ j := fun hkj => hF (.inl hkj)
    rw [h'.tables k (by simpa using hkj) fun hG => hF (.inr hG), h.tables k hk hkj]
  · intro hb
    rw [h'.base (by simp), h.base hb]
  · intro k hk
    obtain rfl | hkj := eq_or_ne k j
    · rw [h'.count_out k (h'.own k rfl), h.count_in k rfl]
    · rw [h'.count_in k (hk.resolve_left hkj), h.count_out k hkj]
  · intro k hk
    rw [h'.count_out k fun hG => hk (.inr hG), h.count_out k fun hkj => hk (.inl hkj)]
  · rintro k hk (rfl | hG)
    · exact href hk
    · exact hown k hk hG
  · exact h.regions.trans h'.regions

omit h in
/-- The same, with the change below first and that of the entry and the count last. -/
theorem Touch.leave {a c : Nat} (h' : Touch δ G s s' (.sub j) a c)
    (h : Touch δ (· = j) s' s'' ref i (i + 1)) (href : .sub j ≠ ref)
    (hown : ∀ k, .sub k = ref → ¬ G k) : Touch δ (fun k => k = j ∨ G k) s s'' ref i (i + 1) := by
  have htch := (h.symm.enter h'.symm href hown).1.symm
  rwa [neg_neg] at htch

theorem Touch.kids_eq (hi : ¬ (i₀ ≤ i ∧ i < i₁))
    (hF : ∀ j, (s.kids ctx d ref n i).Has j → ¬ F j ∧ .sub j ≠ ref) :
    s'.kids ctx d ref n i = s.kids ctx d ref n i := by
  by_cases hn : i < n
  · rw [kids_of_lt hn] at hF ⊢
    rw [kids_of_lt hn, h.cells i hi]
    exact node_congr fun j hj =>
      ⟨h.count_out j (hF j hj).1, h.tables j (hF j hj).2 (hF j hj).1⟩
  · rw [kids_of_not_lt hn, kids_of_not_lt hn]

end

theorem XlatState.kids_addCount (h : ¬ (s.kids ctx d ref n i).Has j) (δ : Int) :
    (s.addCount j δ).kids ctx d ref n i = s.kids ctx d ref n i := by
  by_cases hn : i < n
  · rw [kids_of_lt hn] at h
    rw [kids_of_lt hn, kids_of_lt hn, read_addCount]
    refine node_congr fun k hk => ⟨?_, rfl⟩
    refine s.tablesMappedRegions_addCount_of_ne ?_ δ
    rintro rfl
    exact h hk
  · rw [kids_of_not_lt hn, kids_of_not_lt hn]

/-- The table that an entry points to is in order too. -/
theorem TableOk.sub (hok : TableOk ctx s ref (d + 1) n) {c : Int}
    (he : s.kids ctx (d + 1) ref n i = .table j c (s.kids ctx d (.sub j) xlatTableEntries)) :
    TableOk ctx s (.sub j) d xlatTableEntries := by
  have hdist := hok.distinct i
  rw [he] at hdist
  obtain ⟨hown, hap, hsub⟩ := Node.distinct_table.mp hdist
  refine ⟨fun k k' r hkk' => hap k k' hkk' r, fun k r hr => ?_, hsub, fun k r hr => ?_,
    fun r hr => ?_⟩
  · obtain rfl : r = j := by simpa using hr
    exact hown k
  · exact hok.pos i r (by rw [he]; exact .inr ⟨k, hr⟩)
  · obtain rfl : r = j := by simpa using hr
    exact hok.pos i r (by rw [he]; exact .inl rfl)

/-- The count of the table itself may change, as long as it stays in use. -/
theorem TableOk.addCount {δ : Int} (hok : TableOk ctx s (.sub j) d n)
    (hpos : 0 < s.tablesMappedRegions j + δ) : TableOk ctx (s.addCount j δ) (.sub j) d n := by
  refine hok.congr (fun k => kids_addCount (hok.own k j rfl) δ) (fun k r hr => ?_) fun r hr => ?_
  · have hrj : r ≠ j := by
      rintro rfl
      exact hok.own k r rfl hr
    rw [s.tablesMappedRegions_addCount_of_ne hrj]
    exact hok.pos k r hr
  · obtain rfl : r = j := by simpa using hr
    rw [s.tablesMappedRegions_addCount_self]
    exact hpos

/-- The tree of an entry that points to a table in order. -/
theorem TableOk.entry (hok : TableOk ctx s (.sub j) d xlatTableEntries) {c : Int}
    {N : Node U64 (d + 1)} (hN : N = .table j c (s.kids ctx d (.sub j) xlatTableEntries)) :
    N.Distinct ∧ ∀ r, N.Has r → 0 < s.tablesMappedRegions r := by
  subst hN
  refine ⟨⟨fun k => hok.own k j rfl, fun k k' hkk' r => hok.apart k k' r hkk', hok.distinct⟩, ?_⟩
  rintro r (rfl | ⟨k, hk⟩)
  · exact hok.ownPos r rfl
  · exact hok.pos k r hk

/-- The tables outside of a change are still empty when they are free. -/
theorem FreeZero.touch (hz : FreeZero ctx s) (h : Touch δ F s s' ref i₀ i₁)
    (hown : ∀ j, .sub j = ref → 0 < s.tablesMappedRegions j)
    (hF : ∀ j, F j → s'.tablesMappedRegions j = 0 →
      ∀ k < xlatTableEntries, s'.tables j k = invalidDesc) : FreeZero ctx s' := by
  intro j hj h0
  by_cases hFj : F j
  · exact hF j hFj h0
  · rw [h.count_out j hFj] at h0
    rw [h.tables j (fun hr => (hown j hr).ne' h0) hFj]
    exact hz j hj h0

/-- Replacing the tree of one entry by one made of its own tables and of free ones
leaves the other entries as they are, and the table in order. -/
theorem TableOk.step (hok : TableOk ctx s ref d n) (h : Touch δ F s s' ref i (i + 1))
    (hF : ∀ j, F j → (s.kids ctx d ref n i).Has j ∨ s.tablesMappedRegions j = 0)
    (hdist : (s'.kids ctx d ref n i).Distinct)
    (hfr : ∀ j, (s'.kids ctx d ref n i).Has j →
      (s.kids ctx d ref n i).Has j ∨ s.tablesMappedRegions j = 0)
    (hpos : ∀ j, (s'.kids ctx d ref n i).Has j → 0 < s'.tablesMappedRegions j) :
    TableOk ctx s' ref d n ∧ ∀ k, k ≠ i → s'.kids ctx d ref n k = s.kids ctx d ref n k := by
  have hsep : ∀ k j, k ≠ i → (s.kids ctx d ref n k).Has j →
      ¬ ((s.kids ctx d ref n i).Has j ∨ s.tablesMappedRegions j = 0) := by
    rintro k j hk hj (hj' | h0)
    · exact hok.apart k i j hk hj hj'
    · exact absurd h0 (ne_of_gt (hok.pos k j hj))
  have hsame : ∀ k, k ≠ i → s'.kids ctx d ref n k = s.kids ctx d ref n k := by
    intro k hk
    refine h.kids_eq (by omega) fun j hj => ⟨fun hFj => hsep k j hk hj (hF j hFj), ?_⟩
    exact fun hr => hok.own k j hr hj
  refine ⟨⟨?_, ?_, ?_, ?_, ?_⟩, hsame⟩
  · intro a b j hab ha hb
    obtain rfl | hai := eq_or_ne a i
    · rw [hsame b hab.symm] at hb
      exact hsep b j hab.symm hb (hfr j ha)
    · rw [hsame a hai] at ha
      obtain rfl | hbi := eq_or_ne b i
      · exact hsep a j hai ha (hfr j hb)
      · rw [hsame b hbi] at hb
        exact hok.apart a b j hab ha hb
  · intro k j hr hj
    obtain rfl | hk := eq_or_ne k i
    · rcases hfr j hj with hj' | h0
      · exact hok.own k j hr hj'
      · exact absurd h0 (ne_of_gt (hok.ownPos j hr))
    · rw [hsame k hk] at hj
      exact hok.own k j hr hj
  · intro k
    by_cases hk : k = i
    · subst hk; exact hdist
    · rw [hsame k hk]; exact hok.distinct k
  · intro k j hj
    by_cases hk : k = i
    · subst hk; exact hpos j hj
    · rw [hsame k hk] at hj
      rw [h.count_out j fun hFj => hsep k j hk hj (hF j hFj)]
      exact hok.pos k j hj
  · intro j hr
    rw [h.count_out j (h.own j hr)]
    exact hok.ownPos j hr

end TrustedFirmware.Xlat
