import TrustedFirmware.Xlat.Translate

/-!
# Writing one page descriptor

The indices of the tables see an address only through some bits of its page number
(`pageOf`), so that a walk for an address above the address space ends where the walk
for another address does. When the descriptor at the end of a walk is replaced by
another page descriptor, all walks still end where they did, and only those for that
page see a difference (`PageSet`).
-/

namespace TrustedFirmware.Xlat

open Lib Lib.Radix XlatState

/-! ### Pages and indices -/

/-- The page of an address, as the last `d + 1` levels see it. -/
def pageOf (d : Nat) (va : U64) : Nat := va.toNat / pageSize % xlatTableEntries ^ (d + 1)

variable {ctx : XlatCtx} {s s' : XlatState} {va va' : U64} {d : Nat} {ref : TableRef}

theorem pageOf_zero (va : U64) : pageOf 0 va = xlatTableIdx va 3 :=
  (xlatTableIdx_eq (Nat.zero_le 3)).symm

theorem pageOf_succ (hd : d + 1 ≤ 3) (va : U64) : pageOf (d + 1) va =
      pageOf d va + xlatTableEntries ^ (d + 1) * xlatTableIdx va (3 - (d + 1)) := by
  rw [pageOf, Nat.mod_pow_succ, xlatTableIdx_eq hd, Nat.div_div_eq_div_mul]
  rfl

/-- Two addresses are in the same page for `d + 2` levels if they are for `d + 1` and
have the same index in the one above. -/
theorem pageOf_succ_eq_iff (hd : d + 1 ≤ 3) : pageOf (d + 1) va = pageOf (d + 1) va' ↔
      pageOf d va = pageOf d va' ∧ xlatTableIdx va (2 - d) = xlatTableIdx va' (2 - d) := by
  have hlvl : 3 - (d + 1) = 2 - d := by omega
  have hpos : 0 < xlatTableEntries ^ (d + 1) := Nat.pow_pos (by decide)
  constructor
  · intro h
    have hlow : pageOf d va = pageOf d va' := by
      have hmod := congrArg (· % xlatTableEntries ^ (d + 1)) h
      have hdvd : xlatTableEntries ^ (d + 1) ∣ xlatTableEntries ^ (d + 1 + 1) :=
        pow_dvd_pow _ (Nat.le_succ _)
      simp only [pageOf, Nat.mod_mod_of_dvd _ hdvd] at hmod
      exact hmod
    rw [pageOf_succ hd, pageOf_succ hd, hlow, hlvl] at h
    exact ⟨hlow, Nat.eq_of_mul_eq_mul_left hpos (add_left_cancel h)⟩
  · intro ⟨hlow, hidx⟩
    rw [pageOf_succ hd, pageOf_succ hd, hlow, hlvl, hidx]

theorem XlatState.entryFor_congr_page (hd : d ≤ 3) (h : pageOf d va = pageOf d va') :
    s.entryFor ctx va d ref = s.entryFor ctx va' d ref := by
  induction d generalizing ref with
  | zero =>
    rw [pageOf_zero, pageOf_zero] at h
    simp [entryFor, h]
  | succ d ih =>
    obtain ⟨hlow, hidx⟩ := (pageOf_succ_eq_iff hd).mp h
    simp only [entryFor, hidx]
    split
    · exact ih (by omega) hlow
    · rfl

/-! ### Trees and walks -/

theorem XlatState.entryFor_congr (h : s'.node ctx d (s'.read ref (xlatTableIdx va (3 - d))) =
      s.node ctx d (s.read ref (xlatTableIdx va (3 - d)))) :
    s'.entryFor ctx va d ref = s.entryFor ctx va d ref ∧
      s'.descAt (s.entryFor ctx va d ref) = s.descAt (s.entryFor ctx va d ref) := by
  induction d generalizing ref with
  | zero => exact ⟨rfl, node_inj h⟩
  | succ d ih =>
    have hread := node_inj h
    have hlvl : 3 - (d + 1) = 2 - d := by omega
    rw [hlvl] at h hread
    simp only [entryFor, hread]
    cases hj : ctx.tableOf (s.read ref (xlatTableIdx va (2 - d))) with
    | none => exact ⟨rfl, hread⟩
    | some =>
      obtain ⟨hlt, hdesc⟩ := XlatCtx.tableOf_eq_some hj
      rw [hread, hdesc, node_tableDescOf hlt, node_tableDescOf hlt] at h
      injection h with _ _ hcnt hkids
      have hkid := congrFun hkids (xlatTableIdx va (3 - d))
      have hidx : xlatTableIdx va (3 - d) < xlatTableEntries := xlatTableIdx_lt va _
      rw [kids_of_lt hidx, kids_of_lt hidx] at hkid
      exact ih hkid

/-! ### Replacing a page descriptor -/

/-- From `s` to `s'`, a page descriptor at the end of the walk for `va` from `ref` is
replaced by another one, which the plan allows there. -/
structure PageSet (ctx : XlatCtx) (l : Plan U64) (s s' : XlatState) (va : U64) (ref : TableRef)
    (d n x : Nat) : Prop where
  touch : Touch 0 (fun j => (s.kids ctx d ref n (xlatTableIdx va (3 - d))).Has j) s s' ref
    (xlatTableIdx va (3 - d)) (xlatTableIdx va (3 - d) + 1)
  ok : TableOk ctx s' ref d n
  same : ∀ k, k ≠ xlatTableIdx va (3 - d) → s'.kids ctx d ref n k = s.kids ctx d ref n k
  has : ∀ j, (s'.kids ctx d ref n (xlatTableIdx va (3 - d))).Has j ↔
    (s.kids ctx d ref n (xlatTableIdx va (3 - d))).Has j
  follows : (s'.kids ctx d ref n (xlatTableIdx va (3 - d))).Follows geo l x
  entry : ∀ va', xlatTableIdx va' (3 - d) < n →
    s'.entryFor ctx va' d ref = s.entryFor ctx va' d ref ∧ (pageOf d va' ≠ pageOf d va →
        s'.descAt (s.entryFor ctx va' d ref) = s.descAt (s.entryFor ctx va' d ref))

variable {l : Plan U64} {n x i j : Nat} {desc : U64}

/-- The part of `PageSet` that follows from the rest. -/
theorem PageSet.mk_of_touch (hi : xlatTableIdx va (3 - d) = i) (hok : TableOk ctx s ref d n)
    (htch : Touch 0 (fun j => (s.kids ctx d ref n i).Has j) s s' ref i (i + 1))
    (hdist : (s'.kids ctx d ref n i).Distinct)
    (hhas : ∀ j, (s'.kids ctx d ref n i).Has j ↔ (s.kids ctx d ref n i).Has j)
    (hfol : (s'.kids ctx d ref n i).Follows geo l x)
    (hen : ∀ va', xlatTableIdx va' (3 - d) = i →
      s'.entryFor ctx va' d ref = s.entryFor ctx va' d ref ∧ (pageOf d va' ≠ pageOf d va →
          s'.descAt (s.entryFor ctx va' d ref) = s.descAt (s.entryFor ctx va' d ref))) :
    PageSet ctx l s s' va ref d n x := by
  subst hi
  obtain ⟨hok', hsame⟩ := hok.step htch (fun j hj => .inl hj) hdist
    (fun j hj => .inl ((hhas j).mp hj)) fun j hj => by
      rw [htch.count_in j ((hhas j).mp hj), add_zero]
      exact hok.pos _ j ((hhas j).mp hj)
  refine ⟨htch, hok', hsame, hhas, hfol, fun va' hlt => ?_⟩
  by_cases hidx : xlatTableIdx va' (3 - d) = xlatTableIdx va (3 - d)
  · exact hen va' hidx
  · have hkid := hsame _ hidx
    rw [kids_of_lt hlt, kids_of_lt hlt] at hkid
    obtain ⟨he, hdesc⟩ := entryFor_congr hkid
    exact ⟨he, fun _ => hdesc⟩

/-- A page descriptor in a table of level 3. -/
theorem PageSet.last (hi : xlatTableIdx va 3 = i) (hok : TableOk ctx s ref 0 n) (hlt : i < n)
    (hold : s.read ref i &&& descMask = pageDesc)
    (hnew : desc &&& descMask = pageDesc) (hleaf : l.leaf 0 x desc) :
    PageSet ctx l s (s.write ref i desc) va ref 0 n x := by
  have hkid : s.kids ctx 0 ref n i = .leaf (s.read ref i) := by
    rw [kids_of_lt hlt, node_leaf hold]
  have hkid' : (s.write ref i desc).kids ctx 0 ref n i = .leaf desc := by
    rw [kids_of_lt hlt, read_write_self, node_leaf hnew]
  refine PageSet.mk_of_touch hi hok ((Touch.write 0 s ref i desc).congr fun j => ?_) ?_
    (fun j => ?_) ?_ fun va' _ => ⟨rfl, fun hpage => ?_⟩
  · rw [hkid]
    rfl
  · rw [hkid']
    trivial
  · rw [hkid, hkid']
    rfl
  · rw [hkid']
    exact hleaf
  · rw [pageOf_zero, pageOf_zero, hi] at hpage
    exact s.read_write_of_ne _ _ _ _ _ (.inr hpage)

theorem kids_table (hlt : i < n) (hj : ctx.tableOf (s.read ref i) = some j) :
    s.kids ctx (d + 1) ref n i =
      .table j (s.tablesMappedRegions j) (s.kids ctx d (.sub j) xlatTableEntries) := by
  obtain ⟨hjlt, hdesc⟩ := XlatCtx.tableOf_eq_some hj
  rw [kids_of_lt hlt, hdesc, node_tableDescOf hjlt]

/-- A page descriptor below an entry that points to a table. -/
theorem PageSet.below (hi : xlatTableIdx va (2 - d) = i) (hd : d + 1 ≤ 3)
    (hok : TableOk ctx s ref (d + 1) n) (hlt : i < n) (hj : ctx.tableOf (s.read ref i) = some j)
    (hf : (s.kids ctx (d + 1) ref n i).Follows geo l x)
    (hsub : PageSet ctx l s s' va (.sub j) d xlatTableEntries
      (geo.kidAt x d (xlatTableIdx va (3 - d)))) :
    PageSet ctx l s s' va ref (d + 1) n x := by
  have hkid := kids_table (d := d) hlt hj
  have href : .sub j ≠ ref := by
    intro href
    exact hok.own _ j href (by rw [hkid]; exact .inl rfl)
  have hhasKid : ∀ k, (s.kids ctx d (.sub j) xlatTableEntries (xlatTableIdx va (3 - d))).Has k →
      (s.kids ctx (d + 1) ref n i).Has k := by
    intro k hk
    rw [hkid]
    exact .inr ⟨_, hk⟩
  obtain ⟨htch, hread⟩ := Touch.enter (Touch.stay s href i) hsub.touch href
    fun k hk hkid => hok.own _ k hk (hhasKid k hkid)
  have hkid' := kids_table (d := d) hlt (by rw [hread]; exact hj)
  have hlvl : 3 - (d + 1) = 2 - d := by omega
  have hcnt : s'.tablesMappedRegions j = s.tablesMappedRegions j := by
    rw [htch.count_in j (.inl rfl), add_zero]
  have hall : ∀ i k, (s'.kids ctx d (.sub j) xlatTableEntries i).Has k ↔
      (s.kids ctx d (.sub j) xlatTableEntries i).Has k := by
    intro i k
    by_cases hi : i = xlatTableIdx va (3 - d)
    · rw [hi]
      exact hsub.has k
    · rw [hsub.same i hi]
  rw [hkid] at hf
  refine PageSet.mk_of_touch (hlvl.symm ▸ hi) hok ?_ ?_ (fun k => ?_) ?_ fun va' hidx => ?_
  · refine htch.widen (fun k hk => ?_) (hok.own _)
    rcases hk with rfl | hk
    · rw [hkid]
      exact .inl rfl
    · exact hhasKid k hk
  · rw [hkid']
    exact ⟨fun i => hsub.ok.own i j rfl, fun i k hik r => hsub.ok.apart i k r hik, hsub.ok.distinct⟩
  · rw [hkid, hkid']
    simp [hall]
  · rw [hkid', hcnt]
    refine ⟨hf.1, hf.2.1, fun i hi => ?_⟩
    by_cases hiva : i = xlatTableIdx va (3 - d)
    · rw [hiva]
      exact hsub.follows
    · rw [hsub.same i hiva]
      exact hf.2.2 i hi
  · obtain ⟨he, hfrm⟩ := hsub.entry va' (xlatTableIdx_lt va' _)
    rw [hlvl] at hidx
    simp only [entryFor, hread, hidx, hj]
    refine ⟨he, fun hpage => hfrm fun hlow => hpage ?_⟩
    exact (pageOf_succ_eq_iff hd).mpr ⟨hlow, hidx.trans hi.symm⟩

/-- **Replacing the page descriptor at the end of a walk.** -/
theorem PageSet.of_entry (hd : d ≤ 3) (hok : TableOk ctx s ref d n)
    (hlt : xlatTableIdx va (3 - d) < n) (hx : geo.size d ∣ x) (hle : x ≤ va.toNat)
    (hend : va.toNat < x + geo.size d)
    (hf : (s.kids ctx d ref n (xlatTableIdx va (3 - d))).Follows geo l x)
    (hlev : (s.entryFor ctx va d ref).level = 3)
    (hold : s.descAt (s.entryFor ctx va d ref) &&& descMask = pageDesc)
    (hnew : desc &&& descMask = pageDesc)
    (hleaf : ∀ y, geo.size 0 ∣ y → y ≤ va.toNat → va.toNat < y + geo.size 0 → l.leaf 0 y desc) :
    PageSet ctx l s (s.write (s.entryFor ctx va d ref).ref (s.entryFor ctx va d ref).idx desc) va
      ref d n x := by
  induction d generalizing ref n x with
  | zero => exact PageSet.last rfl hok hlt hold hnew (hleaf x hx hle hend)
  | succ d ih =>
    have hlvl : 3 - (d + 1) = 2 - d := by omega
    cases hj : ctx.tableOf (s.read ref (xlatTableIdx va (2 - d))) with
    | none =>
      simp only [entryFor, hj] at hlev
      omega
    | some j =>
      simp only [entryFor, hj] at hlev hold ⊢
      rw [hlvl] at hlt hf
      have hkid := kids_table (d := d) hlt hj
      have hidx := xlatTableIdx_eq_div hd hx hle hend
      obtain ⟨hin, hkidLe, hkidEnd⟩ := geo.kidAt_div hle hend
      have hfol := hf
      rw [hkid] at hfol
      rw [← hidx] at hin hkidLe hkidEnd
      exact PageSet.below rfl hd hok hlt hj hf
        (ih (by omega) (hok.sub hkid) hin (geo.dvd_kidAt hx _) hkidLe hkidEnd
          (hfol.2.2 _ hin) hlev hold)

theorem PageSet.count (h : PageSet ctx l s s' va ref d n x) (j : Nat) :
    s'.tablesMappedRegions j = s.tablesMappedRegions j := by
  by_cases hj : (s.kids ctx d ref n (xlatTableIdx va (3 - d))).Has j
  · rw [h.touch.count_in j hj, add_zero]
  · exact h.touch.count_out j hj

/-- **Tables that follow a plan** still do when a page descriptor is replaced by
another one that the plan allows. -/
theorem TablesFollow.setPage (h : TablesFollow ctx l s) (hs : VaSpace ctx)
    (hva : va ≤ ctx.vaMaxAddress) (hlvl : (s.walkEnd ctx va).level = 3)
    (hold : s.descAt (s.walkEnd ctx va) &&& descMask = pageDesc)
    (hnew : desc &&& descMask = pageDesc)
    (hleaf : ∀ y, geo.size 0 ∣ y → y ≤ va.toNat → va.toNat < y + geo.size 0 → l.leaf 0 y desc)
    (hs' : s' = s.write (s.walkEnd ctx va).ref (s.walkEnd ctx va).idx desc) :
    TablesFollow ctx l s' ∧ ∀ va', xlatTableIdx va' (3 - ctx.baseDepth) < ctx.baseTableEntries →
      s'.walkEnd ctx va' = s.walkEnd ctx va' ∧ (pageOf ctx.baseDepth va' ≠ pageOf ctx.baseDepth va →
          s'.descAt (s.walkEnd ctx va') = s.descAt (s.walkEnd ctx va')) := by
  obtain ⟨hlt, hle, hend⟩ := hs.index hva
  have hset := PageSet.of_entry ctx.baseDepth_le h.ok hlt (ctx.dvd_treeAt _) hle hend
    (h.follows _ hlt) hlvl hold hnew hleaf
  rw [← hs'] at hset
  refine ⟨⟨hset.ok, h.zero.touch hset.touch h.ok.ownPos fun j hhas hj0 => ?_, fun k hk => ?_,
    fun j hj hne => ?_⟩, hset.entry⟩
  · rw [hset.count j] at hj0
    exact absurd hj0 (ne_of_gt (h.ok.pos _ j hhas))
  · by_cases hidx : k = xlatTableIdx va (3 - ctx.baseDepth)
    · rw [hidx]
      exact hset.follows
    · rw [tree, hset.same k hidx]
      exact h.follows k hk
  · rw [hset.count j] at hne
    obtain ⟨k, hk⟩ := h.linked j hj hne
    refine ⟨k, ?_⟩
    by_cases hidx : k = xlatTableIdx va (3 - ctx.baseDepth)
    · rw [hidx] at hk ⊢
      exact (hset.has j).mpr hk
    · rw [tree, hset.same k hidx]
      exact hk

/-! ### Addresses above the address space -/

/-- The start of the page whose walk is that of an address. -/
def XlatCtx.aliasOf (ctx : XlatCtx) (va : U64) : U64 :=
  BitVec.ofNat 64 (pageOf ctx.baseDepth va * pageSize)

theorem XlatCtx.toNat_aliasOf (ctx : XlatCtx) (va : U64) :
    (ctx.aliasOf va).toNat = pageOf ctx.baseDepth va * pageSize := by
  have hlt : pageOf ctx.baseDepth va < xlatTableEntries ^ (ctx.baseDepth + 1) :=
    Nat.mod_lt _ (Nat.pow_pos (by decide))
  have hpow : xlatTableEntries ^ (ctx.baseDepth + 1) ≤ xlatTableEntries ^ 4 :=
    Nat.pow_le_pow_right (by decide) (Nat.succ_le_succ ctx.baseDepth_le)
  refine Nat.mod_eq_of_lt ?_
  calc pageOf ctx.baseDepth va * pageSize < xlatTableEntries ^ 4 * pageSize :=
        mul_lt_mul_of_pos_right (hlt.trans_le hpow) (by decide)
    _ ≤ 2 ^ 64 := by decide

theorem XlatCtx.pageOf_aliasOf (ctx : XlatCtx) (va : U64) :
    pageOf ctx.baseDepth (ctx.aliasOf va) = pageOf ctx.baseDepth va := by
  rw [pageOf, ctx.toNat_aliasOf, Nat.mul_div_cancel _ (by decide : 0 < pageSize)]
  exact Nat.mod_mod _ _

theorem XlatState.walkEnd_aliasOf (ctx : XlatCtx) (s : XlatState) (va : U64) :
    s.walkEnd ctx (ctx.aliasOf va) = s.walkEnd ctx va :=
  entryFor_congr_page ctx.baseDepth_le (ctx.pageOf_aliasOf va)

/-- The index in the base table is the topmost part of the page number. -/
theorem xlatTableIdx_eq_pageOf {d : Nat} (hd : d ≤ 3) :
    xlatTableIdx va (3 - d) = pageOf d va / xlatTableEntries ^ d := by
  rw [xlatTableIdx_eq hd, pageOf, pow_succ, Nat.mod_mul_right_div_self, Nat.div_div_eq_div_mul]
  rfl

/-- An address that has an entry in the base table is an alias of one in the address
space. -/
theorem VaSpace.aliasOf_le (hs : VaSpace ctx)
    (hidx : xlatTableIdx va (3 - ctx.baseDepth) < ctx.baseTableEntries) :
    ctx.aliasOf va ≤ ctx.vaMaxAddress := by
  have htot := hs.total
  have hpos : 0 < xlatTableEntries ^ ctx.baseDepth := Nat.pow_pos (by decide)
  rw [xlatTableIdx_eq_pageOf ctx.baseDepth_le, Nat.div_lt_iff_lt_mul hpos] at hidx
  rw [BitVec.le_def, ctx.toNat_aliasOf]
  have hmul : pageOf ctx.baseDepth va * pageSize <
      ctx.baseTableEntries * geo.size ctx.baseDepth := by
    calc pageOf ctx.baseDepth va * pageSize
        < ctx.baseTableEntries * xlatTableEntries ^ ctx.baseDepth * pageSize :=
          mul_lt_mul_of_pos_right hidx (by decide)
      _ = ctx.baseTableEntries * geo.size ctx.baseDepth := by
          simp only [Geometry.size, geo]
          ring
  omega

theorem VaSpace.pageOf_eq (hs : VaSpace ctx) (hva : va ≤ ctx.vaMaxAddress) :
    pageOf ctx.baseDepth va = va.toNat / pageSize := by
  have hle := BitVec.le_def.mp hva
  have htot := hs.total
  have hsize : ctx.baseTableEntries * geo.size ctx.baseDepth ≤
      pageSize * xlatTableEntries ^ (ctx.baseDepth + 1) := by
    calc ctx.baseTableEntries * geo.size ctx.baseDepth
        ≤ xlatTableEntries * geo.size ctx.baseDepth := Nat.mul_le_mul_right _ hs.entries_le
      _ = pageSize * xlatTableEntries ^ (ctx.baseDepth + 1) := by
          simp only [Geometry.size, geo]
          ring
  refine Nat.mod_eq_of_lt ?_
  rw [Nat.div_lt_iff_lt_mul (by decide), mul_comm]
  omega

end TrustedFirmware.Xlat
