import TrustedFirmware.Xlat.Walk

/-!
# `xlat_tables_map_region` paints the region over the tree

On tables that follow a plan, the walk over a table either maps every entry that the
region meets (`MapsTo`) and returns the last address it mapped, or it stops for want of
a table (`FailsAt`) and returns the address of the entry that needed it. It writes only
tables of the trees it enters and tables that were free, raises the count of each table
it goes through by one, and asks for tables in the order of `requests`.

The loop over the entries is the induction here (`mapLoop_spec`); the recursion over
the levels supplies the specification of the inner walk (`WalkSpec`).
-/

namespace TrustedFirmware.Xlat

open Lib Lib.Radix List XlatState

/-! ### Free tables -/

/-- Taking one element out of a predicate lowers the count over a list without
repetitions by one. -/
theorem countP_eq_succ {α : Type} [DecidableEq α] {p q : α → Bool} {a : α} {l : List α}
    (hl : l.Nodup) (ha : a ∈ l) (hp : p a = true) (hq : q a = false)
    (h : ∀ b, b ≠ a → p b = q b) : l.countP p = l.countP q + 1 := by
  have hrest : (l.erase a).countP p = (l.erase a).countP q :=
    countP_congr fun b hb => by rw [h b (hl.mem_erase_iff.mp hb).1]
  rw [(perm_cons_erase ha).countP_eq p, (perm_cons_erase ha).countP_eq q,
    countP_cons_of_pos hp, countP_cons_of_neg (by simp [hq]), hrest]

section

variable {ctx : XlatCtx} {s s' : XlatState} {j : Nat}

theorem xlatTableGetEmpty_eq_some (h : xlatTableGetEmpty ctx s = some j) :
    j < ctx.tablesNum ∧ s.tablesMappedRegions j = 0 :=
  ⟨mem_range.mp (mem_of_find?_eq_some h), by simpa using find?_some h⟩

theorem freeCount_eq_zero (h : xlatTableGetEmpty ctx s = none) : freeCount ctx s = 0 :=
  countP_eq_zero.mpr (find?_eq_none.mp h)

theorem freeCount_congr
    (h : ∀ j < ctx.tablesNum, s'.tablesMappedRegions j = 0 ↔ s.tablesMappedRegions j = 0) :
    freeCount ctx s' = freeCount ctx s :=
  countP_congr fun j hj => by simpa using h j (mem_range.mp hj)

/-- A free table that gets its first region is one free table less. -/
theorem freeCount_addCount (hj : j < ctx.tablesNum) (h0 : s.tablesMappedRegions j = 0) :
    freeCount ctx s = freeCount ctx (s.addCount j 1) + 1 := by
  refine countP_eq_succ nodup_range (mem_range.mpr hj) (by simp [h0]) (by simp [h0]) ?_
  intro k hk
  rw [s.tablesMappedRegions_addCount_of_ne hk]

end

/-! ### What a walk over a table achieves -/

section

variable (ctx : XlatCtx) (mm : MmapRegion)

/-- The tables that mapping asks for in the entries of a table from `i` on. -/
def requestsFrom (s : XlatState) (ref : TableRef) (b d n i : Nat) : List (Nat × Nat) :=
  (range' i (n - i)).flatMap fun k =>
    if (mm.paint ctx).Meets (geo.kidAt b d k) (geo.size d) then
      requests geo (mm.paint ctx) d (geo.kidAt b d k) (s.kids ctx d ref n k)
    else []

/-- The writes of a walk that goes through the tables in `F`: the entries of the
table from `i` on are made of what was there and of free tables. -/
structure MapWrites (F : Nat → Prop) (s s' : XlatState) (ref : TableRef) (d n i i₁ : Nat) :
    Prop where
  touch : Touch 1 F s s' ref i i₁
  ok : TableOk ctx s' ref d n
  foot : ∀ j, F j → ∃ k, i ≤ k ∧ k < i₁ ∧ (s'.kids ctx d ref n k).Has j
  fresh : ∀ k j, (s'.kids ctx d ref n k).Has j →
    (s.kids ctx d ref n k).Has j ∨ s.tablesMappedRegions j = 0

/-- Every entry from `i` on that the region meets is mapped. -/
structure MapDone (s s' : XlatState) (ref : TableRef) (b d n i endVa : Nat) : Prop where
  endVa : endVa + 1 = min mm.range.hi (geo.kidAt b d n)
  maps : ∀ k, i ≤ k → k < n → mm.range.Meets (geo.kidAt b d k) (geo.size d) →
    MapsTo geo (mm.paint ctx) (geo.kidAt b d k) (s.kids ctx d ref n k) (s'.kids ctx d ref n k)
  same : ∀ k, ¬ (i ≤ k ∧ k < n ∧ mm.range.Meets (geo.kidAt b d k) (geo.size d)) →
    s'.kids ctx d ref n k = s.kids ctx d ref n k
  free : freeCount ctx s' + (requestsFrom ctx mm s ref b d n i).length = freeCount ctx s

/-- The entries from `i` on are mapped up to the one where the tables run out. -/
structure MapStopped (F : Nat → Prop) (f : Nat × Nat) (s s' : XlatState) (ref : TableRef)
    (b d n i k endVa : Nat) : Prop where
  endVa : endVa = f.2
  from_le : i ≤ k
  lt : k < n
  meets : mm.range.Meets (geo.kidAt b d k) (geo.size d)
  fails : FailsAt geo (mm.paint ctx) f (geo.kidAt b d k) (s.kids ctx d ref n k)
    (s'.kids ctx d ref n k)
  path : ∀ j, (s'.kids ctx d ref n k).Visits geo (Around geo f) j (geo.kidAt b d k) → F j
  maps : ∀ k', i ≤ k' → k' < k → mm.range.Meets (geo.kidAt b d k') (geo.size d) →
    MapsTo geo (mm.paint ctx) (geo.kidAt b d k') (s.kids ctx d ref n k') (s'.kids ctx d ref n k')
  same : ∀ k', ¬ (i ≤ k' ∧ k' ≤ k ∧ mm.range.Meets (geo.kidAt b d k') (geo.size d)) →
    s'.kids ctx d ref n k' = s.kids ctx d ref n k'
  request : (requestsFrom ctx mm s ref b d n i)[freeCount ctx s]? = some f

/-- The result of a walk over the entries of a table from `i` on. The only assertion
that can fail is the one on the memory type. -/
def MapResult (s : XlatState) (ref : TableRef) (b d n i : Nat) :
    Option (XlatState × Nat) → Prop
  | none => memType mm.attr = none
  | some (s', endVa) => ∃ F, MapWrites ctx F s s' ref d n i n ∧
      (MapDone ctx mm s s' ref b d n i endVa ∨
        ∃ f k, MapStopped ctx mm F f s s' ref b d n i k endVa)

/-- What mapping a region relies on: the values that are there are descriptors of
the right type, and those that the region meets are inside it. -/
structure MapReady (l : Plan U64) : Prop where
  ok : l.Ok geo
  type : ∀ d x a, l.leaf d x a → a &&& descMask = leafType d
  inside : ∀ d x a, l.leaf d x a → mm.range.Meets x (geo.size d) → mm.range.Covers x (geo.size d)

/-- The specification of the walk over a sub-table with entries of depth `d`. -/
def WalkSpec (l : Plan U64) (d : Nat)
    (walk : XlatState → Nat → TableRef → Option (XlatState × Nat)) : Prop :=
  ∀ s b j, j < ctx.tablesNum → geo.size (d + 1) ∣ b → mm.range.Meets b (geo.size (d + 1)) →
    TableOk ctx (s.addCount j 1) (.sub j) d xlatTableEntries → FreeZero ctx (s.addCount j 1) →
    (∀ k < xlatTableEntries, ((s.addCount j 1).kids ctx d (.sub j) xlatTableEntries k).Follows
      geo l (geo.kidAt b d k)) →
    MapResult ctx mm (s.addCount j 1) (.sub j) b d xlatTableEntries 0 (walk s b (.sub j))

end

/-! ### One entry -/

variable {r : Option (XlatState × Nat)}

variable {ctx : XlatCtx} {mm : MmapRegion}

/-- One entry is mapped. -/
structure EntryDone (ctx : XlatCtx) (mm : MmapRegion) (s s' : XlatState) (ref : TableRef)
    (b d n i : Nat) : Prop where
  maps : MapsTo geo (mm.paint ctx) (geo.kidAt b d i) (s.kids ctx d ref n i) (s'.kids ctx d ref n i)
  free : freeCount ctx s' +
    (requests geo (mm.paint ctx) d (geo.kidAt b d i) (s.kids ctx d ref n i)).length =
      freeCount ctx s

/-- The tables run out in one entry. -/
structure EntryStopped (ctx : XlatCtx) (mm : MmapRegion) (F : Nat → Prop) (f : Nat × Nat)
    (s s' : XlatState) (ref : TableRef) (b d n i : Nat) : Prop where
  fails : FailsAt geo (mm.paint ctx) f (geo.kidAt b d i) (s.kids ctx d ref n i)
    (s'.kids ctx d ref n i)
  path : ∀ j, (s'.kids ctx d ref n i).Visits geo (Around geo f) j (geo.kidAt b d i) → F j
  request : (requests geo (mm.paint ctx) d (geo.kidAt b d i)
    (s.kids ctx d ref n i))[freeCount ctx s]? = some f

/-- The result of `mapEntry`: go on after an entry that is mapped to its end, return
the end of the region or the address of the entry that needs a table otherwise. -/
def EntryResult (ctx : XlatCtx) (mm : MmapRegion) (s : XlatState) (ref : TableRef)
    (b d n i : Nat) : Option (XlatState × Option Nat) → Prop
  | none => memType mm.attr = none
  | some (s', ret) => ∃ F, MapWrites ctx F s s' ref d n i (i + 1) ∧
      (∀ k, k ≠ i → s'.kids ctx d ref n k = s.kids ctx d ref n k) ∧
      match ret with
      | none => EntryDone ctx mm s s' ref b d n i ∧
          geo.kidAt b d i + geo.size d ≤ mm.range.hi
      | some endVa =>
        (EntryDone ctx mm s s' ref b d n i ∧ endVa + 1 = mm.range.hi ∧
          mm.range.hi < geo.kidAt b d i + geo.size d) ∨
        ∃ f, endVa = f.2 ∧ EntryStopped ctx mm F f s s' ref b d n i

variable {s s₁ s' : XlatState} {ref : TableRef} {b d n i j : Nat} {F : Nat → Prop}
  {N : Node U64 (d + 1)}

/-- Writing one descriptor of a block or page, or nothing. -/
theorem MapWrites.ofTouch (hok : TableOk ctx s ref d n)
    (h : Touch 1 (fun _ => False) s s' ref i (i + 1))
    (hno : ∀ j, (s'.kids ctx d ref n i).Has j → (s.kids ctx d ref n i).Has j)
    (hdist : (s'.kids ctx d ref n i).Distinct) :
    MapWrites ctx (fun _ => False) s s' ref d n i (i + 1) ∧
      ∀ k, k ≠ i → s'.kids ctx d ref n k = s.kids ctx d ref n k := by
  have hstep := hok.step h (fun j hj => hj.elim) hdist (fun j hj => .inl (hno j hj))
    fun j hj => by
      rw [h.count_out j id]
      exact hok.pos i j (hno j hj)
  refine ⟨⟨h, hstep.1, fun j hj => hj.elim, fun k j hj => ?_⟩, hstep.2⟩
  by_cases hk : k = i
  · subst hk; exact .inl (hno j hj)
  · rw [hstep.2 k hk] at hj
    exact .inl hj

theorem Node.has_of_has_kid {k : Nat} (h : (N.kid k).Has j) : N.Has j := by
  cases N with
  | empty | leaf => exact h
  | table => exact .inr ⟨k, h⟩

/-- In `s₁` the entry points to table `j`, and the count of `j` has been raised. -/
structure Entered (ctx : XlatCtx) (s s₁ : XlatState) (ref : TableRef) (d n i j : Nat) : Prop where
  ok : TableOk ctx s ref (d + 1) n
  lt : i < n
  table_lt : j < ctx.tablesNum
  touch : Touch 1 (· = j) s s₁ ref i (i + 1)
  cell : s₁.read ref i = ctx.tableDescOf j
  own : (s.kids ctx (d + 1) ref n i).Has j ∨ s.tablesMappedRegions j = 0
  count : (s.kids ctx (d + 1) ref n i).count = s.tablesMappedRegions j
  kids : ∀ k, s₁.kids ctx d (.sub j) xlatTableEntries k = (s.kids ctx (d + 1) ref n i).kid k

/-- A walk over the sub-table of an entry, seen from the table of the entry. -/
theorem MapWrites.enter (h : Entered ctx s s₁ ref d n i j)
    (hw : MapWrites ctx F s₁ s' (.sub j) d xlatTableEntries 0 xlatTableEntries) :
    s'.kids ctx (d + 1) ref n i = .table j ((s.kids ctx (d + 1) ref n i).count + 1)
      (s'.kids ctx d (.sub j) xlatTableEntries) ∧
    MapWrites ctx (fun k => k = j ∨ F k) s s' ref (d + 1) n i (i + 1) ∧
    ∀ k, k ≠ i → s'.kids ctx (d + 1) ref n k = s.kids ctx (d + 1) ref n k := by
  obtain ⟨hok, hi, hj, h₀, hcell, hown, hcnt, hkids⟩ := h
  -- The walk stays within the tree of the entry and the free tables.
  have hnot : ∀ k, (s.kids ctx (d + 1) ref n i).Has k ∨ s.tablesMappedRegions k = 0 →
      .sub k ≠ ref := by
    rintro k (hk | h0) hr
    · exact hok.own i k hr hk
    · exact absurd h0 (ne_of_gt (hok.ownPos k hr))
  have hcou : s'.tablesMappedRegions j = s.tablesMappedRegions j + 1 := by
    rw [hw.touch.count_out j (hw.touch.own j rfl), h₀.count_in j rfl]
  have hsub : ∀ k r, (s'.kids ctx d (.sub j) xlatTableEntries k).Has r →
      (s.kids ctx (d + 1) ref n i).Has r ∨ s.tablesMappedRegions r = 0 := by
    intro k r hr
    rcases hw.fresh k r hr with hr' | h0
    · rw [hkids k] at hr'
      exact .inl (Node.has_of_has_kid hr')
    · have hrj : r ≠ j := by
        rintro rfl
        have hpos := hw.ok.ownPos r rfl
        rw [hw.touch.count_out r (hw.touch.own r rfl)] at hpos
        omega
      rw [h₀.count_out r hrj] at h0
      exact .inr h0
  have hfoot : ∀ r, r = j ∨ F r →
      (s.kids ctx (d + 1) ref n i).Has r ∨ s.tablesMappedRegions r = 0 := by
    rintro r (rfl | hF)
    · exact hown
    · obtain ⟨k, -, -, hk⟩ := hw.foot r hF
      exact hsub k r hk
  obtain ⟨htch, hread⟩ := h₀.enter hw.touch (hnot j hown)
    fun k hk hF => hnot k (hfoot k (.inr hF)) hk
  have hnode : s'.kids ctx (d + 1) ref n i = .table j ((s.kids ctx (d + 1) ref n i).count + 1)
        (s'.kids ctx d (.sub j) xlatTableEntries) := by
    rw [kids_of_lt hi, hread i, hcell, node_tableDescOf hj, hcou, hcnt]
  obtain ⟨hdist, hpos⟩ := hw.ok.entry hnode
  have hfr : ∀ r, (s'.kids ctx (d + 1) ref n i).Has r →
      (s.kids ctx (d + 1) ref n i).Has r ∨ s.tablesMappedRegions r = 0 := by
    intro r hr
    rw [hnode] at hr
    rcases hr with rfl | ⟨k, hk⟩
    · exact hown
    · exact hsub k r hk
  obtain ⟨hok', hsame⟩ := hok.step htch hfoot hdist hfr hpos
  refine ⟨hnode, ⟨htch, hok', fun r hr => ⟨i, le_rfl, Nat.lt_succ_self i, ?_⟩, ?_⟩, hsame⟩
  · rw [hnode]
    rcases hr with rfl | hF
    · exact .inl rfl
    · obtain ⟨k, -, -, hk⟩ := hw.foot r hF
      exact .inr ⟨k, hk⟩
  · intro k r hr
    by_cases hk : k = i
    · subst hk; exact hfr r hr
    · rw [hsame k hk] at hr
      exact .inl hr

theorem ne_blockEnd {v x : Nat} (hv : pageSize ∣ v) (hx : pageSize ∣ x) (d : Nat) :
    v ≠ x + geo.size d - 1 := by
  intro h
  have hpos := geo.size_pos d
  have hnext : pageSize ∣ v + 1 := by
    rw [h, Nat.sub_add_cancel (by omega)]
    exact Nat.dvd_add hx (pageSize_dvd_size d)
  have hone : pageSize ∣ 1 := (Nat.dvd_add_right hv).mp hnext
  exact absurd hone (by decide)

/-- The result of the walk over the sub-table of an entry, seen from the entry: `q`
is the request for the sub-table itself, if it is a new one. -/
theorem EntryResult.ofWalk (hd : d + 1 ≤ 3) (hb : geo.size (d + 1) ∣ geo.kidAt b (d + 1) i)
    (h : Entered ctx s s₁ ref d n i j)
    (hopen : (mm.paint ctx).Opens geo (geo.kidAt b (d + 1) i) j (s.kids ctx (d + 1) ref n i))
    {q : List (Nat × Nat)} (hfree : freeCount ctx s = freeCount ctx s₁ + q.length)
    (hreq : requests geo (mm.paint ctx) (d + 1) (geo.kidAt b (d + 1) i)
      (s.kids ctx (d + 1) ref n i) =
        q ++ requestsFrom ctx mm s₁ (.sub j) (geo.kidAt b (d + 1) i) d xlatTableEntries 0)
    (hres : MapResult ctx mm s₁ (.sub j) (geo.kidAt b (d + 1) i) d xlatTableEntries 0 r) :
    EntryResult ctx mm s ref b (d + 1) n i
      (r.map (afterSubtable (geo.kidAt b (d + 1) i + xlatBlockSize (3 - (d + 1)) - 1))) := by
  set x := geo.kidAt b (d + 1) i with hx
  cases r with
  | none => exact hres
  | some r =>
    obtain ⟨s', endVa⟩ := r
    obtain ⟨F, hw, hout⟩ := hres
    obtain ⟨hnode, hw', hsame⟩ := hw.enter h
    have hkids := h.kids
    refine ⟨_, hw', hsame, ?_⟩
    have hsize : geo.kidAt x d xlatTableEntries = x + geo.size (d + 1) := by
      rw [geo.size_succ]
      rfl
    rw [xlatBlockSize_eq hd]
    rcases hout with hdone | ⟨f, k, hstop⟩
    · -- All of the sub-table is done.
      have hen : EntryDone ctx mm s s' ref b (d + 1) n i := by
        refine ⟨?_, ?_⟩
        · rw [hnode, ← hx]
          refine MapsTo.inside hopen (fun k hk hm => ?_) (fun k hk => ?_)
          · rw [← hkids k]
            exact hdone.maps k (Nat.zero_le k) hk hm
          · rw [← hkids k]
            exact hdone.same k fun h => hk ⟨h.2.1, h.2.2⟩
        · rw [← hx, hreq, length_append, hfree, ← hdone.free]
          omega
      have hend := hdone.endVa
      by_cases hhi : x + geo.size (d + 1) ≤ mm.range.hi
      · have hret : endVa = x + geo.size (d + 1) - 1 := by omega
        rw [if_neg (not_not.mpr hret)]
        exact ⟨hen, hhi⟩
      · have hret : endVa ≠ x + geo.size (d + 1) - 1 := by omega
        rw [if_pos hret]
        exact .inl ⟨hen, by omega, by omega⟩
    · -- The tables ran out inside.
      have hpage : pageSize ∣ endVa := by
        rw [hstop.endVa]
        exact (pageSize_dvd_size f.1).trans (hstop.fails.dvd (geo.dvd_kidAt hb k))
      rw [if_pos (ne_blockEnd hpage ((pageSize_dvd_size _).trans hb) (d + 1))]
      refine .inr ⟨f, hstop.endVa, ?_, ?_, ?_⟩
      · rw [hnode, ← hx]
        refine FailsAt.inside hopen hstop.lt hstop.meets ?_ (fun k' hk' hm => ?_) (fun k' hk' => ?_)
        · rw [← hkids k]
          exact hstop.fails
        · rw [← hkids k']
          exact hstop.maps k' (Nat.zero_le k') hk' hm
        · rw [← hkids k']
          exact hstop.same k' fun h => hk' ⟨h.2.1, h.2.2⟩
      · rw [hnode, ← hx]
        rintro r ⟨-, rfl | ⟨k', -, hv⟩⟩
        · exact .inl rfl
        · -- Only one part of the table is around the address where the walk stopped.
          obtain ⟨-, hle, hlt⟩ := hv.self
          have hwit := hstop.fails.within
          have hend := hstop.fails.lt_end
          obtain rfl : k' = k := geo.kidAt_unique hle hlt hwit.1 hend
          exact .inr (hstop.path r hv)
      · rw [← hx, hreq, hfree, getElem?_append_right (by omega), Nat.add_sub_cancel]
        exact hstop.request

variable {l : Plan U64} {walk : XlatState → Nat → TableRef → Option (XlatState × Nat)}

section

variable (hmm : mm.Mappable) (hr : MapReady mm l) (hd : d ≤ 3)
  (hx : geo.size (d + 1) ∣ geo.kidAt b (d + 1) i) (hok : TableOk ctx s ref d n)
  (hz : FreeZero ctx s) (hi : i < n) (hm : mm.range.Meets (geo.kidAt b d i) (geo.size d))
include hmm hr hd hx hok hz hi hm

omit hx hz in
/-- An entry that maps memory inside the region is left alone. -/
theorem mapEntry_leaf {a : U64}
    (he : s.kids ctx d ref n i = .leaf a) (hleaf : l.leaf d (geo.kidAt b d i) a) :
    EntryResult ctx mm s ref b d n i (mapEntry ctx mm (3 - d) walk s ref i (geo.kidAt b d i)) := by
  have hdesc : s.read ref i = a := by
    rw [kids_of_lt hi] at he
    exact node_eq_leaf he
  have hc := hr.inside _ _ _ hleaf hm
  have hact := mapAction_leaf hmm.toWalkable hd hc (mm.paAt (geo.kidAt b d i))
  rw [← hr.type _ _ _ hleaf, ← hdesc] at hact
  rw [mapEntry]
  simp only [hact]
  obtain ⟨hw, hsame⟩ := MapWrites.ofTouch hok (.refl 1 s ref i (i + 1)) (fun _ hj => hj)
    (hok.distinct i)
  refine ⟨_, hw, hsame, ⟨?_, ?_⟩, hc.2⟩
  · rw [he]
    exact MapsTo.keep a
  · rw [he]
    simp [requests]

omit hr hx hok hz hi hm in
theorem MmapRegion.Mappable.paAt_aligned {x : Nat}
    (hx : geo.size d ∣ x) (hb : (mm.paint ctx).Block geo d x) :
    xlatBlockSize (3 - d) ∣ (mm.paAt x).toNat := by
  rw [xlatBlockSize_eq hd]
  obtain ⟨⟨hlo, hhi⟩, hfits⟩ := hb
  obtain rfl | h0 := eq_or_ne d 0
  · have hpage : pageSize ∣ x := hx
    have hpos := geo.size_pos 0
    rw [hmm.toNat_paAt hlo (by simp only [MmapRegion.paint] at hhi; omega)]
    exact Nat.dvd_add hmm.pa_aligned (Nat.dvd_sub hpage hmm.va_aligned)
  · simp only [MmapRegion.paint, h0, false_or, decide_eq_true_eq] at hfits
    exact hfits.1

omit hr hx hz in
/-- A block or page descriptor is written where one fits. -/
theorem mapEntry_block (hx : geo.size d ∣ geo.kidAt b d i) (he : s.kids ctx d ref n i = .empty)
    (hb : (mm.paint ctx).Block geo d (geo.kidAt b d i)) :
    EntryResult ctx mm s ref b d n i (mapEntry ctx mm (3 - d) walk s ref i (geo.kidAt b d i)) := by
  have hdesc : s.read ref i = invalidDesc := by
    rw [kids_of_lt hi] at he
    exact node_eq_empty he
  have hact := mapAction_empty hmm.toWalkable ctx hd hx hm
  rw [if_pos hb] at hact
  rw [mapEntry]
  simp only [hdesc, show invalidDesc &&& descMask = invalidDesc from rfl, hact]
  cases hx' : xlatDesc ctx.regime mm.attr (mm.paAt (geo.kidAt b d i)) (3 - d) with
  | none =>
    by_contra ht
    have hsome : (xlatDesc ctx.regime mm.attr (mm.paAt (geo.kidAt b d i)) (3 - d)).isSome :=
      xlatDesc_isSome (hmm.paAt_aligned hd hx hb) (Option.isSome_iff_ne_none.mpr ht)
    rw [hx'] at hsome
    cases hsome
  | some desc =>
    have htype : desc &&& descMask = leafType d := xlatDesc_leafType hx'
    have hnode : (s.write ref i desc).kids ctx d ref n i = .leaf desc := by
      rw [kids_of_lt hi, s.read_write_self]
      exact node_leaf htype
    obtain ⟨hw, hsame⟩ := MapWrites.ofTouch hok (.write 1 s ref i desc)
      (by rw [hnode]; exact fun _ hj => hj.elim) (by rw [hnode]; trivial)
    refine ⟨_, hw, hsame, ⟨?_, ?_⟩, hb.1.2⟩
    · rw [he, hnode]
      exact MapsTo.write hb hx'
    · have hreq : requests geo (mm.paint ctx) d (geo.kidAt b d i) .empty = [] := by
        cases d <;> simp [requests, hb]
      rw [he, hreq, length_nil, add_zero]
      exact freeCount_congr fun j _ => by rw [s.tablesMappedRegions_write]

omit hmm hr hd hx hok hz hi hm in
/-- The requests of a sub-table, as its entry makes them. -/
theorem requests_kids (s : XlatState) (x j : Nat)
    (hkids : ∀ k, s.kids ctx d (.sub j) xlatTableEntries k = N.kid k) :
    requestsFrom ctx mm s (.sub j) x d xlatTableEntries 0 = (range geo.fan).flatMap fun i =>
        if (mm.paint ctx).Meets (geo.kidAt x d i) (geo.size d) then
          requests geo (mm.paint ctx) d (geo.kidAt x d i) (N.kid i)
        else [] := by
  simp only [requestsFrom, hkids, Nat.sub_zero]
  rw [range_eq_range']
  rfl

omit hd hok hm in
/-- A new table is linked and walked, or none is left. -/
theorem mapEntry_create (hd : d + 1 ≤ 3) (hok : TableOk ctx s ref (d + 1) n)
    (hm : mm.range.Meets (geo.kidAt b (d + 1) i) (geo.size (d + 1)))
    (hwalk : WalkSpec ctx mm l d walk) (he : s.kids ctx (d + 1) ref n i = .empty)
    (h0 : l.count (d + 1) (geo.kidAt b (d + 1) i) = 0)
    (hb : ¬ (mm.paint ctx).Block geo (d + 1) (geo.kidAt b (d + 1) i)) :
    EntryResult ctx mm s ref b (d + 1) n i
      (mapEntry ctx mm (3 - (d + 1)) walk s ref i (geo.kidAt b (d + 1) i)) := by
  have hdesc : s.read ref i = invalidDesc := by
    rw [kids_of_lt hi] at he
    exact node_eq_empty he
  have hact := mapAction_empty hmm.toWalkable ctx hd hx hm
  rw [if_neg hb] at hact
  rw [mapEntry]
  simp only [hdesc, show invalidDesc &&& descMask = invalidDesc from rfl, hact]
  cases hemp : xlatTableGetEmpty ctx s with
  | none =>
    obtain ⟨hw, hsame⟩ := MapWrites.ofTouch hok (.refl 1 s ref i (i + 1)) (fun _ hj => hj)
      (hok.distinct i)
    refine ⟨_, hw, hsame, .inr ⟨(d + 1, geo.kidAt b (d + 1) i), rfl, ?_, ?_, ?_⟩⟩
    · rw [he]
      exact FailsAt.here rfl hb
    · rw [he]
      exact fun _ hv => hv.elim
    · rw [he, requests, if_neg hb, freeCount_eq_zero hemp]
      rfl
  | some j =>
    obtain ⟨hj, hj0⟩ := xlatTableGetEmpty_eq_some hemp
    have href : .sub j ≠ ref := fun hr => absurd hj0 (ne_of_gt (hok.ownPos j hr))
    have h₀ := Touch.link (i := i) s (ctx.tableDescOf j) href 1
    set s₁ := (s.write ref i (ctx.tableDescOf j)).addCount j 1 with hs₁
    -- The new table is empty, since it was free.
    have hkids : ∀ k, s₁.kids ctx d (.sub j) xlatTableEntries k = .empty := by
      intro k
      by_cases hk : k < xlatTableEntries
      · have hread : s₁.read (.sub j) k = invalidDesc := by
          rw [hs₁, read_addCount, s.read_write_of_ne _ _ _ _ _ (.inl href)]
          exact hz j hj hj0 k hk
        rw [kids_of_lt hk, hread, node_invalid]
      · exact kids_of_not_lt hk
    have hcnt : s₁.tablesMappedRegions j = 1 := by rw [h₀.count_in j rfl, hj0, zero_add]
    have hok₁ : TableOk ctx s₁ (.sub j) d xlatTableEntries := by
      refine ⟨fun k k' r _ hr => ?_, fun k r _ hr => ?_, fun k => ?_, fun k r hr => ?_, ?_⟩
      · rw [hkids k] at hr
        exact hr.elim
      · rw [hkids k] at hr
        exact hr
      · rw [hkids k]
        trivial
      · rw [hkids k] at hr
        exact hr.elim
      · intro r hr
        obtain rfl : r = j := by simpa using hr
        omega
    have hz₁ : FreeZero ctx s₁ := hz.touch h₀ hok.ownPos fun r hr hr0 => by
      rw [hr] at hr0
      omega
    have hres := hwalk (s.write ref i (ctx.tableDescOf j)) (geo.kidAt b (d + 1) i) j hj hx hm
      hok₁ hz₁ fun k hk => by
        rw [hkids k]
        exact hr.ok.sub d _ k hk h0
    refine EntryResult.ofWalk hd hx ⟨hok, hi, hj, h₀, ?_, .inr hj0, ?_, ?_⟩ ?_
      (q := [(d + 1, geo.kidAt b (d + 1) i)]) ?_ ?_ hres
    · rw [hs₁, read_addCount, s.read_write_self]
    · rw [he, hj0]
      rfl
    · intro k
      rw [hkids k, he]
      rfl
    · rw [he]
      exact hb
    · have hwr : freeCount ctx (s.write ref i (ctx.tableDescOf j)) = freeCount ctx s :=
        freeCount_congr fun r _ => by rw [s.tablesMappedRegions_write]
      rw [← hwr, hs₁]
      exact freeCount_addCount hj (by rw [s.tablesMappedRegions_write]; exact hj0)
    · rw [he, requests, if_neg hb, requests_kids s₁ _ j (N := .empty) hkids, singleton_append]
      simp

omit hr hd hok hm in
/-- The table that is there is walked. -/
theorem mapEntry_table (hd : d + 1 ≤ 3) (hok : TableOk ctx s ref (d + 1) n)
    (hm : mm.range.Meets (geo.kidAt b (d + 1) i) (geo.size (d + 1)))
    (hwalk : WalkSpec ctx mm l d walk) {c : Int} {kids : Nat → Node U64 d}
    (he : s.kids ctx (d + 1) ref n i = .table j c kids)
    (hf : ∀ k < xlatTableEntries, (kids k).Follows geo l (geo.kidAt (geo.kidAt b (d + 1) i) d k)) :
    EntryResult ctx mm s ref b (d + 1) n i
      (mapEntry ctx mm (3 - (d + 1)) walk s ref i (geo.kidAt b (d + 1) i)) := by
  have hnode : s.node ctx (d + 1) (s.read ref i) = .table j c kids := by
    rw [← kids_of_lt hi]
    exact he
  obtain ⟨hj, hdesc, rfl, rfl⟩ := node_eq_table hnode
  have hhas : (s.kids ctx (d + 1) ref n i).Has j := by rw [he]; exact .inl rfl
  have hpos := hok.pos i j hhas
  have href : .sub j ≠ ref := fun hr => hok.own i j hr hhas
  have h₀ := Touch.count (i := i) s href 1
  have hsub := hok.sub he
  have hkids : ∀ k, (s.addCount j 1).kids ctx d (.sub j) xlatTableEntries k =
      s.kids ctx d (.sub j) xlatTableEntries k := fun k =>
    kids_addCount (hsub.own k j rfl) 1
  have hok₁ : TableOk ctx (s.addCount j 1) (.sub j) d xlatTableEntries :=
    hsub.addCount (by omega)
  have hz₁ : FreeZero ctx (s.addCount j 1) := hz.touch h₀ hok.ownPos fun r hr hr0 => by
    rw [h₀.count_in r hr, hr] at hr0
    omega
  have hres := hwalk s (geo.kidAt b (d + 1) i) j hj hx hm hok₁ hz₁ fun k hk => by
    rw [hkids k]
    exact hf k hk
  rw [mapEntry]
  simp only [hdesc, XlatCtx.tableDescOf_and_descMask hj, mapAction_table hmm.toWalkable hd hm,
    xlatTableGetIndex_tableDescOf hj]
  refine EntryResult.ofWalk hd hx ⟨hok, hi, hj, h₀, ?_, .inl hhas, ?_, ?_⟩ ?_ (q := []) ?_ ?_ hres
  · rw [read_addCount, hdesc]
  · rw [he]
    rfl
  · intro k
    rw [hkids k, he]
    rfl
  · rw [he]
    rfl
  · refine freeCount_congr fun r _ => ?_
    obtain rfl | hrj := eq_or_ne r j
    · rw [h₀.count_in r rfl]
      omega
    · rw [h₀.count_out r hrj]
  · rw [he, requests, nil_append, requests_kids (s.addCount j 1) _ j
      (N := .table j (s.tablesMappedRegions j) (s.kids ctx d (.sub j) xlatTableEntries)) hkids]
    rfl

omit hx in
/-- **One entry of the walk.** -/
theorem mapEntry_spec (hx : geo.size d ∣ geo.kidAt b d i)
    (hwalk : ∀ e, d = e + 1 → WalkSpec ctx mm l e walk)
    (hf : (s.kids ctx d ref n i).Follows geo l (geo.kidAt b d i)) :
    EntryResult ctx mm s ref b d n i (mapEntry ctx mm (3 - d) walk s ref i (geo.kidAt b d i)) := by
  cases he : s.kids ctx d ref n i with
  | leaf =>
    rw [he] at hf
    exact mapEntry_leaf hmm hr hd hok hi hm he hf
  | empty =>
    by_cases hb : (mm.paint ctx).Block geo d (geo.kidAt b d i)
    · exact mapEntry_block hmm hd hok hi hm hx he hb
    · cases d with
      | zero => exact absurd (hmm.block_zero ctx hx hm) hb
      | succ d =>
        rw [he] at hf
        exact mapEntry_create hmm hr hx hz hi hd hok hm (hwalk d rfl) he hf hb
  | table =>
    rw [he] at hf
    exact mapEntry_table hmm hx hz hi hd hok hm (hwalk _ rfl) he hf.2.2

end

/-! ### All entries -/

variable {endVa : Nat} {G : Nat → Prop}

theorem MapWrites.freeZero {i₁ : Nat} (hw : MapWrites ctx F s s' ref d n i i₁)
    (hz : FreeZero ctx s) : FreeZero ctx s' := by
  refine hz.touch hw.touch (fun j hr => ?_) fun j hF h0 => ?_
  · rw [← hw.touch.count_out j (hw.touch.own j hr)]
    exact hw.ok.ownPos j hr
  · obtain ⟨k, -, -, hk⟩ := hw.foot j hF
    exact absurd h0 (ne_of_gt (hw.ok.pos k j hk))

theorem requestsFrom_succ (s : XlatState) (hi : i < n)
    (hm : mm.range.Meets (geo.kidAt b d i) (geo.size d)) :
    requestsFrom ctx mm s ref b d n i =
      requests geo (mm.paint ctx) d (geo.kidAt b d i) (s.kids ctx d ref n i) ++
        requestsFrom ctx mm s ref b d n (i + 1) := by
  have hmt : (mm.paint ctx).Meets (geo.kidAt b d i) (geo.size d) := hm
  rw [requestsFrom, requestsFrom, show n - i = (n - (i + 1)) + 1 by omega, range'_succ,
    flatMap_cons, if_pos hmt]

theorem requestsFrom_congr (h : ∀ k, i ≤ k → s'.kids ctx d ref n k = s.kids ctx d ref n k) :
    requestsFrom ctx mm s' ref b d n i = requestsFrom ctx mm s ref b d n i := by
  refine flatMap_congr fun k hk => ?_
  rw [h k (mem_range'_1.mp hk).1]

theorem requestsFrom_eq_nil (s : XlatState)
    (h : ∀ k, i ≤ k → ¬ mm.range.Meets (geo.kidAt b d k) (geo.size d)) :
    requestsFrom ctx mm s ref b d n i = [] := by
  refine flatMap_eq_nil_iff.mpr fun k hk => ?_
  exact if_neg (h k (mem_range'_1.mp hk).1)

theorem not_meets_of_hi_le (h : mm.range.hi ≤ geo.kidAt b d (i + 1)) :
    ∀ k, i + 1 ≤ k → ¬ mm.range.Meets (geo.kidAt b d k) (geo.size d) := by
  intro k hk hm
  have := geo.kidAt_mono b d hk
  have := hm.1
  omega

/-- The last entry that the region meets is mapped. -/
theorem MapDone.last (hi : i < n) (hm : mm.range.Meets (geo.kidAt b d i) (geo.size d))
    (hdone : EntryDone ctx mm s s' ref b d n i)
    (hsame : ∀ k, k ≠ i → s'.kids ctx d ref n k = s.kids ctx d ref n k)
    (hhi : mm.range.hi ≤ geo.kidAt b d (i + 1)) (hend : endVa + 1 = mm.range.hi) :
    MapDone ctx mm s s' ref b d n i endVa := by
  have hno := not_meets_of_hi_le hhi
  refine ⟨?_, fun k hik hkn hmk => ?_, fun k hk => ?_, ?_⟩
  · have hmono := geo.kidAt_mono b d hi
    rw [min_eq_left (hhi.trans hmono)]
    exact hend
  · rcases lt_or_eq_of_le hik with hlt | rfl
    · exact absurd hmk (hno k hlt)
    · exact hdone.maps
  · refine hsame k ?_
    rintro rfl
    exact hk ⟨le_rfl, hi, hm⟩
  · rw [requestsFrom_succ s hi hm, requestsFrom_eq_nil s hno, append_nil]
    exact hdone.free

theorem MapWrites.widen (hw : MapWrites ctx F s s' ref d n i (i + 1)) (hi : i < n) :
    MapWrites ctx F s s' ref d n i n where
  touch := hw.touch.mono hi
  ok := hw.ok
  foot j hj := by
    obtain ⟨k, hik, hk, hhas⟩ := hw.foot j hj
    exact ⟨k, hik, by omega, hhas⟩
  fresh := hw.fresh

/-- One entry and then the rest. -/
theorem MapWrites.cons (hw : MapWrites ctx F s s₁ ref d n i (i + 1))
    (hsame : ∀ k, k ≠ i → s₁.kids ctx d ref n k = s.kids ctx d ref n k)
    (hw' : MapWrites ctx G s₁ s' ref d n (i + 1) n)
    (hsame' : s'.kids ctx d ref n i = s₁.kids ctx d ref n i) (hi : i < n) :
    MapWrites ctx (fun j => F j ∨ G j) s s' ref d n i n := by
  have hfoot : ∀ j, F j → (s'.kids ctx d ref n i).Has j := by
    intro j hj
    obtain ⟨k, hik, hk, hhas⟩ := hw.foot j hj
    obtain rfl : k = i := by omega
    rw [hsame']
    exact hhas
  refine ⟨hw.touch.trans hw'.touch (Nat.le_succ i) hi fun j hF hG => ?_, hw'.ok, ?_, ?_⟩
  · obtain ⟨k, hik, -, hhas⟩ := hw'.foot j hG
    exact hw'.ok.apart i k j (by omega) (hfoot j hF) hhas
  · rintro j (hF | hG)
    · exact ⟨i, le_rfl, hi, hfoot j hF⟩
    · obtain ⟨k, hik, hk, hhas⟩ := hw'.foot j hG
      exact ⟨k, by omega, hk, hhas⟩
  · intro k j hj
    obtain rfl | hk := eq_or_ne k i
    · rw [hsame'] at hj
      exact hw.fresh k j hj
    · rcases hw'.fresh k j hj with hj' | h0
      · rw [hsame k hk] at hj'
        exact .inl hj'
      · have hF : ¬ F j := by
          intro hF
          obtain ⟨k', -, -, hhas⟩ := hw.foot j hF
          exact absurd h0 (ne_of_gt (hw.ok.pos k' j hhas))
        rw [hw.touch.count_out j hF] at h0
        exact .inr h0

section

variable (hi : i < n) (hm : mm.range.Meets (geo.kidAt b d i) (geo.size d)) {f : Nat × Nat}
include hi hm

theorem MapDone.cons (hdone : EntryDone ctx mm s s₁ ref b d n i)
    (hsame : ∀ k, k ≠ i → s₁.kids ctx d ref n k = s.kids ctx d ref n k)
    (hrest : MapDone ctx mm s₁ s' ref b d n (i + 1) endVa) :
    MapDone ctx mm s s' ref b d n i endVa := by
  have hown : s'.kids ctx d ref n i = s₁.kids ctx d ref n i :=
    hrest.same i fun h => by omega
  refine ⟨hrest.endVa, fun k hik hkn hmk => ?_, fun k hk => ?_, ?_⟩
  · rcases lt_or_eq_of_le hik with hlt | rfl
    · rw [← hsame k (by omega)]
      exact hrest.maps k hlt hkn hmk
    · rw [hown]
      exact hdone.maps
  · have hki : k ≠ i := by
      rintro rfl
      exact hk ⟨le_rfl, hi, hm⟩
    rw [← hsame k hki]
    exact hrest.same k fun h => hk ⟨by omega, h.2⟩
  · rw [requestsFrom_succ s hi hm, length_append,
      ← requestsFrom_congr fun k hk => hsame k (by omega)]
    have h1 := hdone.free
    have h2 := hrest.free
    omega

theorem MapStopped.cons {k : Nat} (hdone : EntryDone ctx mm s s₁ ref b d n i)
    (hsame : ∀ k, k ≠ i → s₁.kids ctx d ref n k = s.kids ctx d ref n k)
    (hrest : MapStopped ctx mm G f s₁ s' ref b d n (i + 1) k endVa) :
    MapStopped ctx mm (fun j => F j ∨ G j) f s s' ref b d n i k endVa := by
  have hown : s'.kids ctx d ref n i = s₁.kids ctx d ref n i :=
    hrest.same i fun h => by omega
  have hik := hrest.from_le
  refine ⟨hrest.endVa, by omega, hrest.lt, hrest.meets, ?_, ?_, ?_, ?_, ?_⟩
  · rw [← hsame k (by omega)]
    exact hrest.fails
  · exact fun j hj => .inr (hrest.path j hj)
  · intro k' hik' hk' hmk'
    rcases lt_or_eq_of_le hik' with hlt | rfl
    · rw [← hsame k' (by omega)]
      exact hrest.maps k' hlt hk' hmk'
    · rw [hown]
      exact hdone.maps
  · intro k' hk'
    have hki : k' ≠ i := by
      rintro rfl
      exact hk' ⟨le_refl k', by omega, hm⟩
    rw [← hsame k' hki]
    exact hrest.same k' fun h => hk' ⟨by omega, h.2⟩
  · have h1 := hdone.free
    rw [requestsFrom_succ s hi hm, getElem?_append_right (by omega), ← h1,
      Nat.add_sub_cancel, ← requestsFrom_congr fun k hk => hsame k (by omega)]
    exact hrest.request

theorem MapStopped.first (hend : endVa = f.2) (hstop : EntryStopped ctx mm F f s s' ref b d n i)
    (hsame : ∀ k, k ≠ i → s'.kids ctx d ref n k = s.kids ctx d ref n k) :
    MapStopped ctx mm F f s s' ref b d n i i endVa := by
  refine ⟨hend, le_rfl, hi, hm, hstop.fails, hstop.path, ?_, ?_, ?_⟩
  · omega
  · intro k hk
    refine hsame k ?_
    rintro rfl
    exact hk ⟨le_rfl, le_rfl, hm⟩
  · obtain ⟨hlt, -⟩ := List.getElem?_eq_some_iff.mp hstop.request
    rw [requestsFrom_succ s hi hm, List.getElem?_append_left hlt]
    exact hstop.request

end

/-- **The loop over the entries of a table**, from one that the region meets. -/
theorem mapLoop_spec (hmm : mm.Mappable) (hr : MapReady mm l) (hd : d ≤ 3)
    (hb : geo.size d ∣ b) (hwalk : ∀ e, d = e + 1 → WalkSpec ctx mm l e walk) (m i : Nat)
    (s) (him : i + m = n) (hok : TableOk ctx s ref d n) (hz : FreeZero ctx s)
    (hf : ∀ k, i ≤ k → k < n → (s.kids ctx d ref n k).Follows geo l (geo.kidAt b d k))
    (hhi : geo.kidAt b d i < mm.range.hi) (hlo : mm.range.lo < geo.kidAt b d i + geo.size d)
    (hpos : 0 < geo.kidAt b d n) :
    MapResult ctx mm s ref b d n i (mapLoop ctx mm (3 - d) walk ref m s i (geo.kidAt b d i)) := by
  induction m generalizing i s with
  | zero =>
    obtain rfl : i = n := by omega
    refine ⟨fun _ => False, ⟨.refl 1 s ref i i, hok, fun j hj => hj.elim,
      fun k j hj => .inl hj⟩, .inl ⟨?_, ?_, fun k _ => rfl, ?_⟩⟩
    · omega
    · omega
    · rw [requestsFrom, Nat.sub_self]
      rfl
  | succ m ih =>
    have hi : i < n := by omega
    have hm : mm.range.Meets (geo.kidAt b d i) (geo.size d) := ⟨hhi, hlo⟩
    have hx : geo.size d ∣ geo.kidAt b d i := Nat.dvd_add hb (dvd_mul_left _ _)
    have hen := mapEntry_spec hmm hr hd hok hz hi hm hx hwalk (hf i le_rfl hi)
    rw [mapLoop]
    rw [xlatBlockSize_eq hd, geo.kidAt_add_size]
    cases hres : mapEntry ctx mm (3 - d) walk s ref i (geo.kidAt b d i) with
    | none =>
      rw [hres] at hen
      exact hen
    | some r =>
      obtain ⟨s₁, ret⟩ := r
      rw [hres] at hen
      obtain ⟨F, hw, hsame, hout⟩ := hen
      cases ret with
      | some =>
        refine ⟨F, hw.widen hi, ?_⟩
        rcases hout with ⟨hdone, hend, hlast⟩ | ⟨f, hend, hstop⟩
        · rw [geo.kidAt_add_size] at hlast
          exact .inl (.last hi hm hdone hsame hlast.le hend)
        · exact .inr ⟨f, i, .first hi hm hend hstop hsame⟩
      | none =>
        obtain ⟨hdone, hnext⟩ := hout
        rw [geo.kidAt_add_size] at hnext
        simp only
        split_ifs with hbrk
        · have hpage : pageSize ∣ geo.kidAt b d (i + 1) :=
            (pageSize_dvd_size d).trans (Nat.dvd_add hb (dvd_mul_left _ _))
          have hle := hmm.hi_le_of_endVa_le hpage hbrk
          exact ⟨F, hw.widen hi, .inl (.last hi hm hdone hsame hle (by omega))⟩
        · rw [hmm.toNat_endVa] at hbrk
          have hlo' : mm.range.lo < geo.kidAt b d (i + 1) + geo.size d := by
            rw [geo.kidAt_add_size] at hlo
            omega
          have hih := ih (i + 1) s₁ (by omega) hw.ok (hw.freeZero hz)
            (fun k hik hkn => by rw [hsame k (by omega)]; exact hf k (by omega) hkn)
            (by simp only [MmapRegion.range]; omega) hlo'
          cases hrest : mapLoop ctx mm (3 - d) walk ref m s₁ (i + 1) (geo.kidAt b d (i + 1)) with
          | none =>
            rw [hrest] at hih
            exact hih
          | some r =>
            obtain ⟨s', endVa⟩ := r
            rw [hrest] at hih
            obtain ⟨G, hw', hout⟩ := hih
            have hown : s'.kids ctx d ref n i = s₁.kids ctx d ref n i := by
              rcases hout with hdone' | ⟨f, k, hstop⟩
              · exact hdone'.same i fun h => by omega
              · exact hstop.same i fun h => by omega
            refine ⟨_, hw.cons hsame hw' hown hi, ?_⟩
            rcases hout with hdone' | ⟨f, k, hstop⟩
            · exact .inl (.cons hi hm hdone hsame hdone')
            · exact .inr ⟨f, k, .cons hi hm hdone hsame hstop⟩

/-- The entries before the first one that the region meets do not matter. -/
theorem MapResult.from_start (hi : i < n)
    (hno : ∀ k < i, ¬ mm.range.Meets (geo.kidAt b d k) (geo.size d))
    (h : MapResult ctx mm s ref b d n i r) : MapResult ctx mm s ref b d n 0 r := by
  have hreq : requestsFrom ctx mm s ref b d n 0 = requestsFrom ctx mm s ref b d n i := by
    have hspl : range' 0 (n - 0) = range' 0 i ++ range' i (n - i) := by
      have happ := range'_append_1 (s := 0) (m := i) (n := n - i)
      rw [zero_add, Nat.add_sub_cancel' hi.le] at happ
      exact happ.symm
    rw [requestsFrom, hspl, flatMap_append, flatMap_eq_nil_iff.mpr, nil_append]
    · rfl
    · exact fun k hk => if_neg (hno k (by have := (mem_range'_1.mp hk).2; omega))
  cases r with
  | none => exact h
  | some =>
    obtain ⟨F, hw, hout⟩ := h
    refine ⟨F, ⟨?_, hw.ok, fun j hj => ?_, hw.fresh⟩, ?_⟩
    · exact { hw.touch with cells := fun k hk => hw.touch.cells k (by omega) }
    · obtain ⟨k, -, hk, hhas⟩ := hw.foot j hj
      exact ⟨k, Nat.zero_le k, hk, hhas⟩
    · rcases hout with hdone | ⟨f, k, hstop⟩
      · refine .inl ⟨hdone.endVa, fun k _ hkn hm => ?_, fun k hk => ?_, ?_⟩
        · exact hdone.maps k (not_lt.mp fun hlt => hno k hlt hm) hkn hm
        · exact hdone.same k fun h => hk ⟨Nat.zero_le k, h.2⟩
        · rw [hreq]
          exact hdone.free
      · refine .inr ⟨f, k, hstop.endVa, Nat.zero_le k, hstop.lt, hstop.meets, hstop.fails,
          hstop.path, fun k' _ hk' hm => ?_, fun k' hk' => ?_, ?_⟩
        · exact hstop.maps k' (not_lt.mp fun hlt => hno k' hlt hm) hk' hm
        · exact hstop.same k' fun h => hk' ⟨Nat.zero_le k', h.2⟩
        · rw [hreq]
          exact hstop.request

/-! ### All levels -/

theorem XlatCtx.baseDepth_le (ctx : XlatCtx) : ctx.baseDepth ≤ 3 := Nat.sub_le _ _

theorem XlatCtx.level_baseDepth (ctx : XlatCtx) : 3 - ctx.baseDepth = ctx.baseLevel := by
  have hle : ctx.baseLevel ≤ 3 := by
    unfold XlatCtx.baseLevel getXlatTableLevelBase
    split_ifs <;> omega
  simp only [XlatCtx.baseDepth, xlatTableLevelMax]
  omega

variable (hmm : mm.Mappable) (hr : MapReady mm l)
include hmm hr

/-- The loop over a table, from where `mapTable` starts it. -/
theorem mapLoop_start (hd : d ≤ 3) (hn : 0 < n)
    (hb : geo.size d ∣ b) (hwalk : ∀ e, d = e + 1 → WalkSpec ctx mm l e walk)
    (hm : mm.range.Meets b (n * geo.size d)) {ref : TableRef}
    (hok : TableOk ctx s ref d n) (hz : FreeZero ctx s)
    (hf : ∀ k < n, (s.kids ctx d ref n k).Follows geo l (geo.kidAt b d k)) :
    MapResult ctx mm s ref b d n 0 (mapLoop ctx mm (3 - d) walk ref
        (n - xlatTablesVaToIndex b (xlatTablesFindStartVa mm b (3 - d)) (3 - d)) s
        (xlatTablesVaToIndex b (xlatTablesFindStartVa mm b (3 - d)) (3 - d))
        (xlatTablesFindStartVa mm b (3 - d))) := by
  obtain ⟨i, hi, hstt, hidx, hno, hmi⟩ := exists_start hmm.toWalkable hd hn hb hm
  rw [hstt, hidx]
  have hpos : 0 < geo.kidAt b d n :=
    lt_of_lt_of_le (mul_pos hn (geo.size_pos d)) (Nat.le_add_left _ _)
  refine MapResult.from_start hi hno ?_
  exact mapLoop_spec hmm hr hd hb hwalk (n - i) i s (by omega) hok hz
    (fun k _ hk => hf k hk) hmi.1 hmi.2 hpos

/-- One level: the walk over a sub-table. -/
theorem mapTable_spec (hd : d < ctx.baseDepth) (hwalk : ∀ e, d = e + 1 → WalkSpec ctx mm l e walk) :
    WalkSpec ctx mm l d fun s va ref => mapTable ctx mm (3 - d) walk s va ref xlatTableEntries := by
  intro s b j hj hb hm hok hz hf
  have hlvl : 3 - d > ctx.baseLevel := by
    have : d < 3 - ctx.baseLevel := hd
    omega
  have hd3 : d ≤ 3 := hd.le.trans ctx.baseDepth_le
  show MapResult _ _ _ _ _ _ _ _ (mapTable ctx mm (3 - d) walk s b (.sub j) xlatTableEntries)
  rw [mapTable, if_neg (by omega), if_pos hlvl]
  refine mapLoop_start hmm hr hd3 (by decide) ((geo.size_dvd (Nat.le_succ d)).trans hb) hwalk ?_
    hok hz hf
  rw [geo.size_succ] at hm
  exact hm

theorem xlatTablesMapRegion_spec (hd : d < ctx.baseDepth) : WalkSpec ctx mm l d fun s va ref =>
      xlatTablesMapRegion ctx mm d s va ref xlatTableEntries := by
  induction d with
  | zero => exact mapTable_spec hmm hr hd fun e he => absurd he (Nat.succ_ne_zero e).symm
  | succ d ih =>
    have hwalk : ∀ e, d + 1 = e + 1 → WalkSpec ctx mm l e fun s va ref =>
        xlatTablesMapRegion ctx mm d s va ref xlatTableEntries := by
      intro e he
      obtain rfl : d = e := Nat.succ.inj he
      exact ih (by omega)
    have hspec := mapTable_spec hmm hr hd hwalk
    rw [Nat.succ_sub_succ_eq_sub] at hspec
    exact hspec

/-- **Mapping a region from the base table.** -/
theorem mapRegion_spec (hn : 0 < ctx.baseTableEntries)
    (hm : mm.range.Meets 0 (ctx.baseTableEntries * geo.size ctx.baseDepth))
    (hok : TableOk ctx s .base ctx.baseDepth ctx.baseTableEntries) (hz : FreeZero ctx s)
    (hf : ∀ k < ctx.baseTableEntries,
      (s.kids ctx ctx.baseDepth .base ctx.baseTableEntries k).Follows geo l
        (geo.kidAt 0 ctx.baseDepth k)) :
    MapResult ctx mm s .base 0 ctx.baseDepth ctx.baseTableEntries 0 (mapRegion ctx s mm) := by
  have hbase : ∃ walk, (∀ e, ctx.baseDepth = e + 1 → WalkSpec ctx mm l e walk) ∧
      mapRegion ctx s mm =
        mapTable ctx mm (3 - ctx.baseDepth) walk s 0 .base ctx.baseTableEntries := by
    unfold mapRegion
    cases hd : ctx.baseDepth with
    | zero => exact ⟨fun _ _ _ => none, fun e he => by omega, rfl⟩
    | succ d =>
      refine ⟨fun s va ref => xlatTablesMapRegion ctx mm d s va ref xlatTableEntries,
        fun e he => ?_, ?_⟩
      · obtain rfl : d = e := by omega
        exact xlatTablesMapRegion_spec hmm hr (by omega)
      · rw [Nat.succ_sub_succ_eq_sub]
        rfl
  obtain ⟨walk, hwalk, heq⟩ := hbase
  have hstt := mapLoop_start hmm hr ctx.baseDepth_le hn (dvd_zero _) hwalk hm hok hz hf
  rw [ctx.level_baseDepth] at hstt
  rw [heq, mapTable, ctx.level_baseDepth, if_neg (lt_irrefl _), if_neg (lt_irrefl _)]
  exact hstt

end TrustedFirmware.Xlat
