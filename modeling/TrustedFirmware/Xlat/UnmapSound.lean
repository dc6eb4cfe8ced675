import TrustedFirmware.Xlat.MapSound

/-!
# `xlat_tables_unmap_region` erases the region from the tree

On tables that follow a plan in which the region is a user of every block it meets, the
walk meets no assertion, lowers the count of exactly the tables it goes through, and
leaves the tree that `unmap` gives. A table whose count gets to zero is empty by then,
because the plan has no user left for any of its entries.
-/

namespace TrustedFirmware.Xlat

open Lib Lib.Radix Option XlatState

variable {ctx : XlatCtx} {mm : MmapRegion} {l l' : Plan U64} {s s₁ s' : XlatState}
  {ref : TableRef} {b d n i i₁ j : Nat}

/-- What unmapping a region relies on: the region is a user of what it meets, the
values that are there are descriptors of the right type, and those that the region
meets are inside it. -/
structure UnmapReady (mm : MmapRegion) (l l' : Plan U64) : Prop where
  shrinks : Plan.Shrinks geo mm.range l l'
  type : ∀ d x a, l.leaf d x a → a &&& descMask = leafType d
  inside : ∀ d x a, l.leaf d x a → mm.range.Meets x (geo.size d) → mm.range.Covers x (geo.size d)

/-- The tables that unmapping goes through in the entries of a table from `i` up to
`i₁`. -/
def UnmapVisits (ctx : XlatCtx) (mm : MmapRegion) (s : XlatState) (ref : TableRef)
    (b d n i i₁ j : Nat) : Prop :=
  ∃ k, i ≤ k ∧ k < i₁ ∧ (s.kids ctx d ref n k).Visits geo (mm.range.Blocks geo) j (geo.kidAt b d k)

/-- The region is erased from the entries of a table from `i` up to `i₁`. Whether the
tables that go away are empty depends on the plan that is left. -/
structure UnmapDone (ctx : XlatCtx) (mm : MmapRegion) (l' : Plan U64) (s s' : XlatState)
    (ref : TableRef) (b d n i i₁ : Nat) : Prop where
  touch : Touch (-1) (UnmapVisits ctx mm s ref b d n i i₁) s s' ref i i₁
  ok : TableOk ctx s' ref d n
  zero : l'.Ok geo → FreeZero ctx s → FreeZero ctx s'
  kids : ∀ k, s'.kids ctx d ref n k =
    if i ≤ k ∧ k < i₁ ∧ mm.range.Meets (geo.kidAt b d k) (geo.size d) then
      unmap geo mm.range (geo.kidAt b d k) (s.kids ctx d ref n k)
    else s.kids ctx d ref n k

/-- The specification of the walk over a sub-table with entries of depth `d`. The
count of the table itself is lowered last. -/
def UnmapSpec (ctx : XlatCtx) (mm : MmapRegion) (l l' : Plan U64) (d : Nat)
    (walk : XlatState → Nat → TableRef → Option XlatState) : Prop :=
  ∀ s b j, geo.size (d + 1) ∣ b → mm.range.Meets b (geo.size (d + 1)) →
    TableOk ctx s (.sub j) d xlatTableEntries →
    (∀ k < xlatTableEntries, (s.kids ctx d (.sub j) xlatTableEntries k).Follows geo l
      (geo.kidAt b d k)) →
    ∃ s', walk s b (.sub j) = some (s'.addCount j (-1)) ∧
      UnmapDone ctx mm l' s s' (.sub j) b d xlatTableEntries 0 xlatTableEntries

/-! ### One entry -/

/-- Assemble the result for one entry from what happened to it. -/
theorem UnmapDone.ofEntry (hok : TableOk ctx s ref d n)
    (hm : mm.range.Meets (geo.kidAt b d i) (geo.size d))
    (htch : Touch (-1) (fun j => (s.kids ctx d ref n i).Visits geo (mm.range.Blocks geo) j
      (geo.kidAt b d i)) s s' ref i (i + 1))
    (hkid : s'.kids ctx d ref n i = unmap geo mm.range (geo.kidAt b d i) (s.kids ctx d ref n i))
    (hdist : (s'.kids ctx d ref n i).Distinct)
    (hpos : ∀ r, (s'.kids ctx d ref n i).Has r → 0 < s'.tablesMappedRegions r)
    (hz : l'.Ok geo → FreeZero ctx s → FreeZero ctx s') :
    UnmapDone ctx mm l' s s' ref b d n i (i + 1) := by
  obtain ⟨hok', hsame⟩ := hok.step htch (fun r hr => .inl hr.has) hdist
    (fun r hr => by rw [hkid] at hr; exact .inl (has_of_has_unmap hr)) hpos
  refine ⟨htch.congr fun r => ⟨fun hr => ⟨i, le_rfl, Nat.lt_succ_self i, hr⟩, ?_⟩,
    hok', hz, fun k => ?_⟩
  · rintro ⟨k, hik, hki, hr⟩
    obtain rfl : k = i := by omega
    exact hr
  · obtain rfl | hk := eq_or_ne k i
    · rw [if_pos ⟨le_rfl, Nat.lt_succ_self k, hm⟩]
      exact hkid
    · rw [if_neg (by omega)]
      exact hsame k hk

variable {walk : XlatState → Nat → TableRef → Option XlatState}

section

variable (hmm : mm.Walkable) (hr : UnmapReady mm l l') (hok : TableOk ctx s ref d n) (hi : i < n)
  (hm : mm.range.Meets (geo.kidAt b d i) (geo.size d))
include hmm hr hok hi hm

/-- A block or page descriptor inside the region is replaced by an invalid one. -/
theorem unmapEntry_leaf (hd : d ≤ 3)
    {a : U64} (he : s.kids ctx d ref n i = .leaf a) (hleaf : l.leaf d (geo.kidAt b d i) a) :
    ∃ s', unmapEntry ctx mm (3 - d) walk s ref i (geo.kidAt b d i) = some s' ∧
      UnmapDone ctx mm l' s s' ref b d n i (i + 1) := by
  have hdesc : s.read ref i = a := by
    rw [kids_of_lt hi] at he
    exact node_eq_leaf he
  have hact := unmapAction_leaf hmm hd (hr.inside _ _ _ hleaf hm)
  rw [← hr.type _ _ _ hleaf, ← hdesc] at hact
  refine ⟨s.write ref i invalidDesc, ?_, ?_⟩
  · rw [unmapEntry]
    simp [hact]
  · have hnode : (s.write ref i invalidDesc).kids ctx d ref n i = .empty := by
      rw [kids_of_lt hi, s.read_write_self, node_invalid]
    have htch := Touch.write (-1) s ref i invalidDesc
    refine .ofEntry hok hm (htch.congr fun r => ?_) ?_ ?_ ?_ fun _ hz =>
      hz.touch htch hok.ownPos fun _ h => h.elim
    · rw [he]
      exact Iff.rfl
    · rw [hnode, he]
      rfl
    · rw [hnode]
      trivial
    · rw [hnode]
      exact fun r hr => hr.elim

omit hmm hok hi hm in
/-- The parts of a table follow the smaller plan once the region is erased. -/
theorem UnmapDone.follows (hb : geo.size d ∣ b)
    (hf : ∀ k < n, (s.kids ctx d ref n k).Follows geo l (geo.kidAt b d k))
    (h : UnmapDone ctx mm l' s s' ref b d n 0 n) :
    ∀ k < n, (s'.kids ctx d ref n k).Follows geo l' (geo.kidAt b d k) := by
  intro k hk
  have hx : geo.size d ∣ geo.kidAt b d k := Nat.dvd_add hb (dvd_mul_left _ _)
  rw [h.kids k]
  by_cases hm : mm.range.Meets (geo.kidAt b d k) (geo.size d)
  · rw [if_pos ⟨Nat.zero_le k, hk, hm⟩]
    exact (hf k hk).unmap hr.shrinks hx hm
  · rw [if_neg fun h => hm h.2.2]
    exact hr.shrinks.follows_apart hx hm (hf k hk)

omit hmm hr hok hi hm in
theorem tables_eq_invalid (hl : l.Ok geo) (h0 : l.count (d + 1) b = 0)
    (hf : ∀ k < xlatTableEntries, (s.kids ctx d (.sub j) xlatTableEntries k).Follows geo l
      (geo.kidAt b d k)) : ∀ k < xlatTableEntries, s.tables j k = invalidDesc := by
  intro k hk
  have hemp := (hf k hk).eq_empty hl (hl.sub d b k hk h0)
  rw [kids_of_lt hk] at hemp
  exact node_eq_empty hemp

omit hmm hr hok hi hm in
theorem write_addCount (s : XlatState) (ref : TableRef) (i j : Nat) (desc : U64) (δ : Int) :
    (s.addCount j δ).write ref i desc = (s.write ref i desc).addCount j δ := by
  cases ref <;> rfl

omit hok hm in
/-- The table of an entry is walked, and unlinked if that was its last region. -/
theorem unmapEntry_table (hd : d + 1 ≤ 3)
    (hx : geo.size (d + 1) ∣ geo.kidAt b (d + 1) i) (hok : TableOk ctx s ref (d + 1) n)
    (hm : mm.range.Meets (geo.kidAt b (d + 1) i) (geo.size (d + 1)))
    (hwalk : UnmapSpec ctx mm l l' d walk) {c : Int} {kids : Nat → Node U64 d}
    (he : s.kids ctx (d + 1) ref n i = .table j c kids)
    (hf : (s.kids ctx (d + 1) ref n i).Follows geo l (geo.kidAt b (d + 1) i)) :
    ∃ s', unmapEntry ctx mm (3 - (d + 1)) walk s ref i (geo.kidAt b (d + 1) i) = some s' ∧
      UnmapDone ctx mm l' s s' ref b (d + 1) n i (i + 1) := by
  set x := geo.kidAt b (d + 1) i with hxdef
  have hnode : s.node ctx (d + 1) (s.read ref i) = .table j c kids := by
    rw [← kids_of_lt hi]
    exact he
  obtain ⟨hj, hdesc, rfl, rfl⟩ := node_eq_table hnode
  have hhas : (s.kids ctx (d + 1) ref n i).Has j := by rw [he]; exact .inl rfl
  have hjpos := hok.pos i j hhas
  have href : .sub j ≠ ref := fun hr => hok.own i j hr hhas
  have hfol := hf.unmap hr.shrinks hx hm
  rw [he] at hf
  obtain ⟨s₁, hrun, hdone⟩ := hwalk s x j hx hm (hok.sub he) hf.2.2
  have hcnt : s₁.tablesMappedRegions j = s.tablesMappedRegions j :=
    hdone.touch.count_out j (hdone.touch.own j rfl)
  have hvis : ∀ r, (r = j ∨
      UnmapVisits ctx mm s (.sub j) x d xlatTableEntries 0 xlatTableEntries r) ↔
      (s.kids ctx (d + 1) ref n i).Visits geo (mm.range.Blocks geo) r x := by
    intro r
    rw [he]
    constructor
    · rintro (rfl | ⟨k, -, hk, hv⟩)
      · exact ⟨hm, .inl rfl⟩
      · exact ⟨hm, .inr ⟨k, hk, hv⟩⟩
    · rintro ⟨-, rfl | ⟨k, hk, hv⟩⟩
      · exact .inl rfl
      · exact .inr ⟨k, Nat.zero_le k, hk, hv⟩
  -- The walk stays below the entry, so the table of the entry stays in use.
  have hout : ∀ r, .sub r = ref →
      ¬ UnmapVisits ctx mm s (.sub j) x d xlatTableEntries 0 xlatTableEntries r :=
    fun r hr hv => hok.own i r hr ((hvis r).mp (.inr hv)).has
  have hown : ∀ r, .sub r = ref → 0 < s₁.tablesMappedRegions r := by
    intro r hr
    rw [hdone.touch.count_out r (hout r hr)]
    exact hok.ownPos r hr
  have hen : unmapEntry ctx mm (3 - (d + 1)) walk s ref i x =
      some (if (s₁.addCount j (-1)).tablesMappedRegions j = 0 then
        (s₁.addCount j (-1)).write ref i invalidDesc else s₁.addCount j (-1)) := by
    rw [unmapEntry]
    simp only [hdesc, XlatCtx.tableDescOf_and_descMask hj, unmapAction_table hmm hd hm,
      xlatTableGetIndex_tableDescOf hj, hrun, map_some]
  rw [s₁.tablesMappedRegions_addCount_self, hcnt] at hen
  by_cases hlast : s.tablesMappedRegions j = 1
  · rw [if_pos (by omega), write_addCount] at hen
    have hlink := Touch.link (i := i) s₁ invalidDesc href (-1)
    set s₂ := (s₁.write ref i invalidDesc).addCount j (-1) with hs₂
    have htch := (hdone.touch.leave hlink href hout).congr hvis
    have hunm : unmap geo mm.range x (s.kids ctx (d + 1) ref n i) = .empty := by
      rw [he, unmap, if_pos hlast]
    have hkid : s₂.kids ctx (d + 1) ref n i = .empty := by
      rw [kids_of_lt hi, hs₂, read_addCount, s₁.read_write_self, node_invalid]
    refine ⟨s₂, hen, .ofEntry hok hm htch ?_ ?_ ?_ fun hl hz =>
      (hdone.zero hl hz).touch hlink hown fun r hrj _ => ?_⟩
    · rw [hkid]
      exact hunm.symm
    · rw [hkid]
      trivial
    · rw [hkid]
      exact fun r hr => hr.elim
    · have htab : s₂.tables j = s₁.tables j :=
        (Touch.write (-1) s₁ ref i invalidDesc).tables j href id
      rw [hrj, htab]
      rw [hunm] at hfol
      exact tables_eq_invalid hl hfol
        (hdone.follows hr ((geo.size_dvd (Nat.le_succ d)).trans hx) hf.2.2)
  · rw [if_neg (by omega)] at hen
    have hlink := Touch.count (i := i) s₁ href (-1)
    have htch := (hdone.touch.leave hlink href hout).congr hvis
    have hsub : ∀ k, (s₁.addCount j (-1)).kids ctx d (.sub j) xlatTableEntries k =
        s₁.kids ctx d (.sub j) xlatTableEntries k := fun k =>
      kids_addCount (hdone.ok.own k j rfl) (-1)
    have hread : (s₁.addCount j (-1)).read ref i = ctx.tableDescOf j := by
      rw [read_addCount, ← hdesc]
      exact hdone.touch.read_eq href hout i
    have hkid : (s₁.addCount j (-1)).kids ctx (d + 1) ref n i =
        .table j (s.tablesMappedRegions j - 1)
          ((s₁.addCount j (-1)).kids ctx d (.sub j) xlatTableEntries) := by
      rw [kids_of_lt hi, hread, node_tableDescOf hj,
        s₁.tablesMappedRegions_addCount_self, hcnt, Int.sub_eq_add_neg]
    have hok₁ := hdone.ok.addCount (δ := -1) (by omega)
    obtain ⟨hdist, hpos⟩ := hok₁.entry hkid
    refine ⟨s₁.addCount j (-1), hen, .ofEntry hok hm htch ?_ hdist hpos fun hl hz =>
      (hdone.zero hl hz).touch hlink hown fun r hrj hr0 => ?_⟩
    · rw [hkid, he, unmap, if_neg hlast]
      congr 1
      funext k
      rw [hsub k, hdone.kids k]
      exact if_congr (and_iff_right (Nat.zero_le k)) rfl rfl
    · rw [hrj] at hr0
      exact absurd hr0 (ne_of_gt (hok₁.ownPos j rfl))

/-- **One entry of the walk.** -/
theorem unmapEntry_spec (hd : d ≤ 3) (hx : geo.size d ∣ geo.kidAt b d i)
    (hwalk : ∀ e, d = e + 1 → UnmapSpec ctx mm l l' e walk)
    (hf : (s.kids ctx d ref n i).Follows geo l (geo.kidAt b d i)) :
    ∃ s', unmapEntry ctx mm (3 - d) walk s ref i (geo.kidAt b d i) = some s' ∧
      UnmapDone ctx mm l' s s' ref b d n i (i + 1) := by
  cases he : s.kids ctx d ref n i with
  | leaf =>
    rw [he] at hf
    exact unmapEntry_leaf hmm hr hok hi hm hd he hf
  | empty =>
    -- The region is a user of the block, so something is there.
    rw [he] at hf
    have h0 : l.count d (geo.kidAt b d i) = 0 := hf
    have hpos := hr.shrinks.meets d _ hm
    omega
  | table => exact unmapEntry_table hmm hr hi hd hx hok hm (hwalk _ rfl) he hf

end

/-! ### All entries and all levels -/

theorem UnmapDone.widen (h : UnmapDone ctx mm l' s s' ref b d n i (i + 1)) (hi : i < n)
    (hno : ∀ k, i + 1 ≤ k → ¬ mm.range.Meets (geo.kidAt b d k) (geo.size d)) :
    UnmapDone ctx mm l' s s' ref b d n i n := by
  refine ⟨(h.touch.mono hi).congr fun j => ⟨?_, ?_⟩, h.ok, h.zero, fun k => ?_⟩
  · rintro ⟨k, hik, hk, hv⟩
    exact ⟨k, hik, by omega, hv⟩
  · rintro ⟨k, hik, -, hv⟩
    exact ⟨k, hik, not_le.mp fun hk => hno k hk hv.self, hv⟩
  · rw [h.kids k]
    refine if_congr ⟨fun hk => ⟨hk.1, by omega, hk.2.2⟩, fun hk => ⟨hk.1, ?_, hk.2.2⟩⟩ rfl rfl
    exact not_le.mp fun h => hno k h hk.2.2

/-- One entry and then the rest. -/
theorem UnmapDone.cons (h : UnmapDone ctx mm l' s s₁ ref b d n i (i + 1)) (hi : i < n)
    (hok : TableOk ctx s ref d n) (h' : UnmapDone ctx mm l' s₁ s' ref b d n (i + 1) n) :
    UnmapDone ctx mm l' s s' ref b d n i n := by
  have hsame : ∀ k, k ≠ i → s₁.kids ctx d ref n k = s.kids ctx d ref n k := by
    intro k hk
    rw [h.kids k, if_neg (by omega)]
  refine ⟨(h.touch.trans h'.touch (Nat.le_succ i) hi ?_).congr fun j => ⟨?_, ?_⟩, h'.ok,
    fun hl hz => h'.zero hl (h.zero hl hz), fun k => ?_⟩
  · rintro j ⟨k, hik, hk, hv⟩ ⟨k', hik', -, hv'⟩
    rw [hsame k' (by omega)] at hv'
    exact hok.apart k k' j (by omega) hv.has hv'.has
  · rintro (⟨k, hik, hk, hv⟩ | ⟨k, hik, hk, hv⟩)
    · exact ⟨k, hik, by omega, hv⟩
    · rw [hsame k (by omega)] at hv
      exact ⟨k, by omega, hk, hv⟩
  · rintro ⟨k, hik, hk, hv⟩
    by_cases hki : k = i
    · exact .inl ⟨k, hik, by omega, hv⟩
    · refine .inr ⟨k, by omega, hk, ?_⟩
      rw [hsame k hki]
      exact hv
  · rw [h'.kids k]
    by_cases hki : k = i
    · rw [if_neg (by omega), h.kids k]
      exact if_congr ⟨fun hk => ⟨hk.1, by omega, hk.2.2⟩, fun hk => ⟨hk.1, by omega, hk.2.2⟩⟩
        rfl rfl
    · rw [hsame k hki]
      exact if_congr ⟨fun hk => ⟨by omega, hk.2⟩, fun hk => ⟨by omega, hk.2⟩⟩ rfl rfl

variable (hmm : mm.Walkable) (hr : UnmapReady mm l l')
include hmm hr

/-- **The loop over the entries of a table**, from one that the region meets. -/
theorem unmapLoop_spec (hd : d ≤ 3)
    (hb : geo.size d ∣ b) (hwalk : ∀ e, d = e + 1 → UnmapSpec ctx mm l l' e walk) (m : Nat) :
    ∀ i s, i + (m + 1) = n → TableOk ctx s ref d n →
      (∀ k, i ≤ k → k < n → (s.kids ctx d ref n k).Follows geo l (geo.kidAt b d k)) →
      mm.range.Meets (geo.kidAt b d i) (geo.size d) →
      ∃ s', unmapLoop ctx mm (3 - d) walk ref (m + 1) s i (geo.kidAt b d i) = some s' ∧
        UnmapDone ctx mm l' s s' ref b d n i n := by
  induction m with
  | zero =>
    intro i s him hok hf hm
    obtain rfl : n = i + 1 := by omega
    have hx : geo.size d ∣ geo.kidAt b d i := Nat.dvd_add hb (dvd_mul_left _ _)
    obtain ⟨s', hen, hdone⟩ := unmapEntry_spec hmm hr hok (Nat.lt_succ_self i) hm hd hx
      hwalk (hf i le_rfl (Nat.lt_succ_self i))
    refine ⟨s', ?_, hdone⟩
    rw [unmapLoop, hen, bind_some, unmapLoop]
    exact ite_self _
  | succ m ih =>
    intro i s him hok hf hm
    have hi : i < n := by omega
    have hx : geo.size d ∣ geo.kidAt b d i := Nat.dvd_add hb (dvd_mul_left _ _)
    obtain ⟨s₁, hen, hdone⟩ := unmapEntry_spec hmm hr hok hi hm hd hx hwalk (hf i le_rfl hi)
    rw [unmapLoop, hen, bind_some, xlatBlockSize_eq hd, geo.kidAt_add_size]
    split_ifs with hbrk
    · have hpage : pageSize ∣ geo.kidAt b d (i + 1) :=
        (pageSize_dvd_size d).trans (Nat.dvd_add hb (dvd_mul_left _ _))
      exact ⟨s₁, rfl, hdone.widen hi (not_meets_of_hi_le (hmm.hi_le_of_endVa_le hpage hbrk))⟩
    · rw [hmm.toNat_endVa] at hbrk
      have hlo : mm.range.lo < geo.kidAt b d (i + 1) + geo.size d := by
        have := hm.2
        rw [geo.kidAt_add_size] at this
        omega
      obtain ⟨s', hrest, hdone'⟩ := ih (i + 1) s₁ (by omega) hdone.ok (fun k hik hk => by
          rw [hdone.kids k, if_neg (by omega)]
          exact hf k (by omega) hk)
        ⟨by simp only [MmapRegion.range]; omega, hlo⟩
      exact ⟨s', hrest, hdone.cons hi hok hdone'⟩

/-- The loop over a table, from where `unmapTable` starts it. -/
theorem unmapLoop_start (hd : d ≤ 3) (hn : 0 < n)
    (hb : geo.size d ∣ b) (hwalk : ∀ e, d = e + 1 → UnmapSpec ctx mm l l' e walk)
    (hm : mm.range.Meets b (n * geo.size d)) (hok : TableOk ctx s ref d n)
    (hf : ∀ k < n, (s.kids ctx d ref n k).Follows geo l (geo.kidAt b d k)) :
    ∃ s', unmapLoop ctx mm (3 - d) walk ref
        (n - xlatTablesVaToIndex b (xlatTablesFindStartVa mm b (3 - d)) (3 - d)) s
        (xlatTablesVaToIndex b (xlatTablesFindStartVa mm b (3 - d)) (3 - d))
        (xlatTablesFindStartVa mm b (3 - d)) = some s' ∧
      UnmapDone ctx mm l' s s' ref b d n 0 n := by
  obtain ⟨i, hi, hstt, hidx, hno, hmi⟩ := exists_start hmm hd hn hb hm
  rw [hstt, hidx]
  obtain ⟨m, hm'⟩ : ∃ m, n - i = m + 1 := ⟨n - i - 1, by omega⟩
  obtain ⟨s', hloop, hdone⟩ := unmapLoop_spec hmm hr hd hb hwalk m i s (by omega) hok
    (fun k _ hk => hf k hk) hmi
  rw [hm']
  refine ⟨s', hloop, ?_, hdone.ok, hdone.zero, fun k => ?_⟩
  · have htch : Touch (-1) (UnmapVisits ctx mm s ref b d n i n) s s' ref 0 n :=
      { hdone.touch with cells := fun k hk => hdone.touch.cells k (by omega) }
    refine htch.congr fun j => ⟨?_, ?_⟩
    · rintro ⟨k, -, hk, hv⟩
      exact ⟨k, Nat.zero_le k, hk, hv⟩
    · rintro ⟨k, -, hk, hv⟩
      exact ⟨k, not_lt.mp fun hlt => hno k hlt hv.self, hk, hv⟩
  · rw [hdone.kids k]
    refine if_congr ⟨fun hk => ⟨Nat.zero_le k, hk.2⟩, fun hk => ⟨?_, hk.2⟩⟩ rfl rfl
    exact not_lt.mp fun hlt => hno k hlt hk.2.2

/-- One level: the walk over a sub-table. -/
theorem unmapTable_spec (hd : d < ctx.baseDepth)
    (hwalk : ∀ e, d = e + 1 → UnmapSpec ctx mm l l' e walk) :
    UnmapSpec ctx mm l l' d fun s va ref =>
      unmapTable ctx mm (3 - d) walk s va ref xlatTableEntries := by
  intro s b j hb hm hok hf
  have hlvl : 3 - d > ctx.baseLevel := by
    have : d < 3 - ctx.baseLevel := hd
    omega
  have hd3 : d ≤ 3 := hd.le.trans ctx.baseDepth_le
  rw [geo.size_succ] at hm
  obtain ⟨s', hloop, hdone⟩ := unmapLoop_start (n := xlatTableEntries) hmm hr hd3
    (by decide) ((geo.size_dvd (Nat.le_succ d)).trans hb) hwalk hm hok hf
  refine ⟨s', ?_, hdone⟩
  show unmapTable ctx mm (3 - d) walk s b (.sub j) xlatTableEntries = _
  rw [unmapTable, if_neg (by omega)]
  show (unmapLoop _ _ _ _ _ _ _ _ _).bind _ = _
  rw [hloop, bind_some, if_pos hlvl]
  rfl

theorem xlatTablesUnmapRegion_spec (hd : d < ctx.baseDepth) :
    UnmapSpec ctx mm l l' d fun s va ref =>
      xlatTablesUnmapRegion ctx mm d s va ref xlatTableEntries := by
  induction d with
  | zero => exact unmapTable_spec hmm hr hd fun e he => absurd he (Nat.succ_ne_zero e).symm
  | succ d ih =>
    have hwalk : ∀ e, d + 1 = e + 1 → UnmapSpec ctx mm l l' e fun s va ref =>
        xlatTablesUnmapRegion ctx mm d s va ref xlatTableEntries := by
      intro e he
      obtain rfl : d = e := Nat.succ.inj he
      exact ih (by omega)
    have hspec := unmapTable_spec hmm hr hd hwalk
    rw [Nat.succ_sub_succ_eq_sub] at hspec
    exact hspec

/-- **Unmapping a region from the base table.** -/
theorem unmapRegion_spec (hn : 0 < ctx.baseTableEntries)
    (hm : mm.range.Meets 0 (ctx.baseTableEntries * geo.size ctx.baseDepth))
    (hok : TableOk ctx s .base ctx.baseDepth ctx.baseTableEntries)
    (hf : ∀ k < ctx.baseTableEntries,
      (s.kids ctx ctx.baseDepth .base ctx.baseTableEntries k).Follows geo l
        (geo.kidAt 0 ctx.baseDepth k)) :
    ∃ s', unmapRegion ctx s mm = some s' ∧
      UnmapDone ctx mm l' s s' .base 0 ctx.baseDepth ctx.baseTableEntries 0
        ctx.baseTableEntries := by
  have hbase : ∃ walk, (∀ e, ctx.baseDepth = e + 1 → UnmapSpec ctx mm l l' e walk) ∧
      unmapRegion ctx s mm =
        unmapTable ctx mm (3 - ctx.baseDepth) walk s 0 .base ctx.baseTableEntries := by
    unfold unmapRegion
    cases hd : ctx.baseDepth with
    | zero => exact ⟨fun _ _ _ => none, fun e he => by omega, rfl⟩
    | succ d =>
      refine ⟨fun s va ref => xlatTablesUnmapRegion ctx mm d s va ref xlatTableEntries,
        fun e he => ?_, ?_⟩
      · obtain rfl : d = e := by omega
        exact xlatTablesUnmapRegion_spec hmm hr (by omega)
      · rw [Nat.succ_sub_succ_eq_sub]
        rfl
  obtain ⟨walk, hwalk, heq⟩ := hbase
  obtain ⟨s', hloop, hdone⟩ := unmapLoop_start hmm hr ctx.baseDepth_le hn (dvd_zero _)
    hwalk hm hok hf
  refine ⟨s', ?_, hdone⟩
  rw [heq, unmapTable, ctx.level_baseDepth, if_neg (lt_irrefl _)]
  rw [ctx.level_baseDepth] at hloop
  show (unmapLoop _ _ _ _ _ _ _ _ _).bind _ = _
  rw [hloop, bind_some, if_neg (lt_irrefl _)]

end TrustedFirmware.Xlat
