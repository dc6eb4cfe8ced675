import Mathlib.Data.List.TakeWhile
import TrustedFirmware.Xlat.System
import TrustedFirmware.Xlat.Tree

/-!
# The regions of a context

Whatever the calls, the `mmap` array holds its regions in front of unused entries,
ordered by end and size, and any two of them are nested or apart; `max_va` and `max_pa`
are the largest ends.

The four places that move parts of the array are all an insertion or a removal at
one position of the list of regions (`MmapArray.insert`, `MmapArray.remove`), and the
position of an insertion is the right one (`insertPosition_split`). What the tables hold
plays no part.
-/

namespace TrustedFirmware.Xlat

open Lib Lib.Radix List MmapRegion Option XlatState Prod
open BitVec (lt_def toNat_inj eq_of_toNat_eq le_def not_lt le_refl le_trans)

/-! ### The array -/

/-- The array holds the regions `rs`, and unused entries after them. -/
def MmapArray (ctx : XlatCtx) (mmap rs : List MmapRegion) : Prop :=
  ∃ k, 0 < k ∧ rs.length + k = ctx.mmapNum + 1 ∧ mmap = rs ++ replicate k .zero ∧
    ∀ mm ∈ rs, mm.size ≠ 0

variable {α : Type} {n k c : Nat} {z a : α} {p : MmapRegion → Bool} {mmap' : List MmapRegion}

section

variable {ctx : XlatCtx} {mmap rs : List MmapRegion} {mm : MmapRegion} {c : Nat}

theorem takeWhile_replicate_zero (hp : p .zero = false) (k : Nat) :
    (replicate k zero).takeWhile p = [] := by
  cases k with
  | zero => rfl
  | succ => rw [replicate_succ, takeWhile_cons_of_neg (by simp [hp])]

theorem MmapArray.live_eq (h : MmapArray ctx mmap rs) : liveRegions mmap = rs := by
  obtain ⟨k, -, -, rfl, hrs⟩ := h
  rw [liveRegions, takeWhile_append_of_pos (by simpa using hrs),
    takeWhile_replicate_zero (by simp [zero]), append_nil]

theorem MmapArray.length_le (h : MmapArray ctx mmap rs) : rs.length ≤ ctx.mmapNum := by
  obtain ⟨k, hk, hlen, -⟩ := h
  omega

/-- An entry is unused exactly if it is after the regions. -/
theorem MmapArray.sizeAt_eq_zero (h : MmapArray ctx mmap rs) {i : Nat} :
    sizeAt mmap i = 0 ↔ rs.length ≤ i := by
  obtain ⟨k, -, -, rfl, hrs⟩ := h
  unfold sizeAt
  constructor
  · intro h0
    by_contra hlt
    have hlt : i < rs.length := by omega
    rw [getD_append _ _ _ _ hlt, getD_eq_getElem _ _ hlt] at h0
    exact hrs _ (getElem_mem hlt) h0
  · intro hle
    rw [getD_append_right _ _ _ _ hle, getD_eq_getElem?_getD, getElem?_replicate]
    split <;> rfl

theorem set_take_succ {l t : List α} (hc : c < l.length) :
    (l.take (c + 1) ++ t).set c a = l.take c ++ a :: t := by
  rw [take_succ_eq_append_getElem hc, append_assoc, set_append_right _ _ (by simp)]
  simp [min_eq_left hc.le]

/-- Moving the part from position `c` on, with `j` of the unused entries, up by one place. -/
theorem memmove_up {rs : List α} {j : Nat} (hc : c ≤ rs.length) (hj : j < k) :
    (memmove (rs ++ replicate k z) (c + 1) c (rs.length - c + j)).set c a =
      rs.take c ++ a :: rs.drop c ++ replicate (k - 1) z := by
  have hrest : (rs ++ replicate k z).drop (c + 1 + (rs.length - c + j)) =
      replicate (k - 1 - j) z := by
    rw [show c + 1 + (rs.length - c + j) = rs.length + (1 + j) by omega,
      drop_length_add_append, drop_replicate, Nat.sub_add_eq]
  have hmv : ((rs ++ replicate k z).drop c).take (rs.length - c + j) =
      rs.drop c ++ replicate j z := by
    rw [drop_append_of_le_length hc, ← length_drop, take_length_add_append, take_replicate,
      min_eq_left hj.le]
  rw [memmove, hrest, hmv, append_assoc, set_take_succ (by simp; omega),
    take_append_of_le_length hc, append_assoc, replicate_append_replicate,
    show j + (k - 1 - j) = k - 1 by omega]
  simp

/-- Moving all after position `c` down by one place. The last element is doubled. -/
theorem memmove_down {rs : List α} (hc : c < rs.length) (hlen : rs.length + k = n + 1)
    (hk : 1 ≤ k) :
    memmove (rs ++ replicate k z) c (c + 1) (n - c) =
      rs.take c ++ rs.drop (c + 1) ++ replicate (k + 1) z := by
  have hlast : (rs ++ replicate k z).drop (c + (n - c)) = [z] := by
    rw [show c + (n - c) = rs.length + (k - 1) by omega, drop_append,
      drop_eq_nil_of_le (by omega), nil_append, drop_replicate,
      show k - (rs.length + (k - 1) - rs.length) = 1 by omega]
    rfl
  have hmv : ((rs ++ replicate k z).drop (c + 1)).take (n - c) =
      rs.drop (c + 1) ++ replicate k z := by
    rw [drop_append_of_le_length hc, take_of_length_le (by simp; omega)]
  rw [memmove, hlast, hmv, take_append_of_le_length hc.le]
  simp [replicate_succ']

theorem size_ne_zero_insert (hrs : ∀ mm ∈ rs, mm.size ≠ 0) (hsize : mm.size ≠ 0) :
    ∀ mm' ∈ rs.take c ++ mm :: rs.drop c, mm'.size ≠ 0 := by
  simp only [forall_mem_append, forall_mem_cons]
  exact ⟨fun r hr => hrs r (mem_of_mem_take hr), hsize, fun r hr => hrs r (mem_of_mem_drop hr)⟩

section

variable (h : MmapArray ctx mmap rs)
include h

/-- An insertion moves all the regions after it, and any number of the unused entries. -/
theorem MmapArray.insert {len : Nat} (hc : c ≤ rs.length) (hroom : rs.length < ctx.mmapNum)
    (hsize : mm.size ≠ 0) (hle : rs.length - c ≤ len) (hlt : len ≤ ctx.mmapNum - c) :
    MmapArray ctx ((memmove mmap (c + 1) c len).set c mm) (rs.take c ++ mm :: rs.drop c) := by
  obtain ⟨k, -, hlen, rfl, hrs⟩ := h
  refine ⟨k - 1, by omega, by simp; omega, ?_, size_ne_zero_insert hrs hsize⟩
  obtain ⟨j, rfl⟩ := Nat.exists_eq_add_of_le hle
  exact memmove_up hc (by omega)

theorem MmapArray.remove (hc : c < rs.length) :
    MmapArray ctx (memmove mmap c (c + 1) (ctx.mmapNum - c)) (rs.take c ++ rs.drop (c + 1)) := by
  obtain ⟨k, hk, hlen, rfl, hrs⟩ := h
  refine ⟨k + 1, by omega, by simp; omega, memmove_down hc hlen hk, forall_mem_append.mpr ⟨?_, ?_⟩⟩
  · exact fun mm hmm => hrs mm (mem_of_mem_take hmm)
  · exact fun mm hmm => hrs mm (mem_of_mem_drop hmm)

theorem MmapArray.unique (h' : MmapArray ctx mmap' rs) : mmap' = mmap := by
  obtain ⟨k, -, hlen, rfl, -⟩ := h
  obtain ⟨k', -, hlen', rfl, -⟩ := h'
  rw [show k' = k by omega]

theorem MmapArray.remove_insert
    (hc : c ≤ rs.length) (h' : MmapArray ctx mmap' (rs.take c ++ mm :: rs.drop c)) :
    memmove mmap' c (c + 1) (ctx.mmapNum - c) = mmap := by
  have hrem := h'.remove (c := c) (by simp; omega)
  have htake : (rs.take c ++ mm :: rs.drop c).take c = rs.take c := by
    rw [take_append_of_le_length (by simpa), take_of_length_le (by simp)]
  have hdrop : (rs.take c ++ mm :: rs.drop c).drop (c + 1) = rs.drop c := by
    rw [drop_append, drop_eq_nil_of_le (by simp)]
    simp [min_eq_left hc]
  rw [htake, hdrop, take_append_drop] at hrem
  exact h.unique hrem

end

end

/-! ### The order of the regions -/

/-- The order of the array: lower end first, then smaller size first. -/
def MmapRegion.Before (a b : MmapRegion) : Prop :=
  a.endVa < b.endVa ∨ (a.endVa = b.endVa ∧ a.size < b.size)

section

variable {ctx : XlatCtx} {mmap rs : List MmapRegion} {mm : MmapRegion}

theorem MmapRegion.Before.trans {a b c : MmapRegion} (hab : a.Before b) (hbc : b.Before c) :
    a.Before c := by
  unfold MmapRegion.Before at *
  simp only [lt_def, ← toNat_inj] at *
  omega

theorem takeWhile_append_zero (hp : p .zero = false) (rs : List MmapRegion) (k : Nat) :
    (rs ++ replicate k zero).takeWhile p = rs.takeWhile p := by
  rw [takeWhile_append, takeWhile_replicate_zero hp, append_nil]
  split
  next h => exact (IsPrefix.eq_of_length ( takeWhile_prefix p) h).symm
  · rfl

theorem drop_takeWhile_length (p : α → Bool) (l : List α) :
    l.drop (l.takeWhile p).length = l.dropWhile p := by
  rw [← @drop_left _ (l.takeWhile p) (l.dropWhile p), takeWhile_append_dropWhile]

theorem not_head_dropWhile {p : α → Bool} {l t : List α} (h : l.dropWhile p = a :: t) :
    p a = false := by
  have hhead := head?_dropWhile_not p l
  rw [h] at hhead
  exact hhead

/-- In a list in order, what holds of a part in front holds of none that a loop over it leaves. -/
theorem not_of_mem_dropWhile {R : α → α → Prop} {P : α → Prop} {p : α → Bool} {l : List α}
    (hl : l.Pairwise R) (hfront : ∀ a b, R a b → P b → P a) (hp : ∀ a ∈ l, P a → p a = true) :
    ∀ b ∈ l.dropWhile p, ¬ P b := by
  cases hD : l.dropWhile p with
  | nil => simp
  | cons a t =>
    have hsub : (a :: t).Sublist l := hD ▸ dropWhile_sublist p
    have ha : ¬ P a := fun hP => by
      have hpa := hp a (hsub.subset mem_cons_self) hP
      rw [not_head_dropWhile hD] at hpa
      cases hpa
    refine forall_mem_cons.mpr ⟨ha, fun b hb hP => ?_⟩
    exact ha (hfront a b ((pairwise_cons.mp (hl.sublist hsub)).1 b hb) hP)

/-- The cursor stops where the regions that go before the new one end. -/
theorem insertPosition_split (h : MmapArray ctx mmap rs) (hsort : rs.Pairwise MmapRegion.Before)
    (mm : MmapRegion) :
    insertPosition mmap mm ≤ rs.length ∧ (∀ r ∈ rs.take (insertPosition mmap mm), r.Before mm) ∧
      ∀ r ∈ rs.drop (insertPosition mmap mm), ¬ r.Before mm := by
  obtain ⟨k, -, -, rfl, hrs⟩ := h
  set p : MmapRegion → Bool := fun c => c.endVa < mm.endVa ∧ c.size ≠ 0 with hp
  set q : MmapRegion → Bool := fun c => c.endVa = mm.endVa ∧ c.size ≠ 0 ∧ c.size < mm.size with hq
  have hpos : insertPosition (rs ++ replicate k zero) mm =
      (rs.takeWhile p ++ (rs.dropWhile p).takeWhile q).length := by
    rw [insertPosition, takeWhile_append_zero (by simp [zero]), length_append,
      drop_append_of_le_length (IsPrefix.length_le ( takeWhile_prefix _)), drop_takeWhile_length,
      takeWhile_append_zero (by simp [zero])]
  have hspl : rs = (rs.takeWhile p ++ (rs.dropWhile p).takeWhile q) ++
      (rs.dropWhile p).dropWhile q := by
    rw [append_assoc, takeWhile_append_dropWhile, takeWhile_append_dropWhile]
  -- The first loop leaves the regions that end where the new one does, or later.
  have hend : ∀ r ∈ rs.dropWhile p, ¬ r.endVa < mm.endVa := by
    refine not_of_mem_dropWhile hsort (fun a b hab hlt => ?_) fun a ha hlt => ?_
    · unfold MmapRegion.Before at hab
      simp only [lt_def, ← toNat_inj] at *
      omega
    · simpa [hp, hlt] using hrs a ha
  have hback : ∀ r ∈ (rs.dropWhile p).dropWhile q, ¬ r.Before mm := by
    refine not_of_mem_dropWhile (hsort.sublist (dropWhile_sublist p))
      (fun a b hab hbm => hab.trans hbm) fun a ha hbm => ?_
    obtain hlt | ⟨heq, hlt⟩ := hbm
    · exact absurd hlt (hend a ha)
    · simpa [hq, heq, hlt] using hrs a ((dropWhile_sublist p).subset ha)
  have hfrt : ∀ r ∈ rs.takeWhile p ++ (rs.dropWhile p).takeWhile q, r.Before mm := by
    refine forall_mem_append.mpr ⟨fun r hr => ?_, fun r hr => ?_⟩
    · have hpr := mem_takeWhile_imp hr
      simp only [hp, decide_eq_true_eq] at hpr
      exact .inl hpr.1
    · have hqr := mem_takeWhile_imp hr
      simp only [hq, decide_eq_true_eq] at hqr
      exact .inr ⟨hqr.1, hqr.2.2⟩
  rw [hpos]
  generalize rs.takeWhile p ++ (rs.dropWhile p).takeWhile q = front at hspl hfrt
  rw [hspl, take_left, drop_left]
  exact ⟨by simp, hfrt, hback⟩

end

/-! ### One region, and two -/

/-- What `mmap_add_region_check` asks of a region itself. -/
structure RegionOk (ctx : XlatCtx) (mm : MmapRegion) : Prop where
  size_pos : 0 < mm.size.toNat
  va_aligned : pageSize ∣ mm.baseVa.toNat
  pa_aligned : pageSize ∣ mm.basePa.toNat
  size_aligned : pageSize ∣ mm.size.toNat
  endVa : mm.endVa.toNat + 1 = mm.baseVa.toNat + mm.size.toNat
  endPa : mm.endPa.toNat + 1 = mm.basePa.toNat + mm.size.toNat
  va_le : mm.endVa.toNat ≤ ctx.vaMaxAddress.toNat
  pa_le : mm.endPa.toNat ≤ ctx.paMaxAddress.toNat

/-- The physical addresses of a region. -/
def MmapRegion.paRange (mm : MmapRegion) : Range :=
  ⟨mm.basePa.toNat, mm.basePa.toNat + mm.size.toNat⟩

/-- The virtual addresses of the first region are a proper part of those of the
second. -/
def MmapRegion.Inside (a b : MmapRegion) : Prop :=
  b.range.lo ≤ a.range.lo ∧ a.range.hi ≤ b.range.hi ∧ a.range ≠ b.range

/-- Two regions may be there together: static ones nested with one offset, or two
that share no address. -/
def MmapRegion.Coexist (a b : MmapRegion) : Prop :=
  ((a.Inside b ∨ b.Inside a) ∧ a.baseVa - a.basePa = b.baseVa - b.basePa ∧
    a.isDynamic = false ∧ b.isDynamic = false) ∨
  (a.range.Apart b.range ∧ a.paRange.Apart b.paRange)

variable {size : U64}

section

variable {ctx : XlatCtx} {s : XlatState} {mm a b : MmapRegion}

theorem MmapRegion.Coexist.symm (h : a.Coexist b) : b.Coexist a := by
  rcases h with ⟨hin, hoff, ha, hb⟩ | ⟨hva, hpa⟩
  · exact .inl ⟨hin.symm, hoff.symm, hb, ha⟩
  · exact .inr ⟨hva.symm, hpa.symm⟩

theorem isPageAligned_iff (x : U64) : isPageAligned x = true ↔ pageSize ∣ x.toNat := by
  have h := and_lowMask_eq_zero (show 12 ≤ 64 by decide) x
  simp only [isPageAligned, decide_eq_true_eq]
  exact h

theorem toNat_end_of_le {base : U64} (hsize : size ≠ 0) (h : ¬ base > base + size - 1) :
    (base + size - 1).toNat + 1 = base.toNat + size.toNat := by
  bv_omega

/-- A region that passes the check, with the room that there is for it. -/
theorem mmapAddRegionCheck_eq_zero (hsize : mm.size ≠ 0) (h : mmapAddRegionCheck ctx s mm = 0) :
    RegionOk ctx mm ∧ sizeAt s.mmap (ctx.mmapNum - 1) = 0 ∧
      ∀ r ∈ s.live, mmapRegionsCompatible mm r = true := by
  have hpos : 0 < mm.size.toNat :=
    pos_of_ne_zero fun h0 => hsize (eq_of_toNat_eq (by simpa using h0))
  unfold mmapAddRegionCheck at h
  split_ifs at h with hal _ hover hva hpa hroom hcmp <;> try cases h
  simp only [not_or, not_not, isPageAligned_iff] at hal hover hroom
  have hendVa := toNat_end_of_le hsize hover.2
  have hendPa := toNat_end_of_le hsize hover.1
  refine ⟨⟨hpos, hal.2.1, hal.1, hal.2.2, hendVa, hendPa, ?_, ?_⟩, hroom, all_eq_true.mp hcmp⟩
  · exact le_def.mp (not_lt.mp hva)
  · exact le_def.mp (not_lt.mp hpa)

theorem MmapRegion.coexist_of_compatible (ha : RegionOk ctx a) (hb : RegionOk ctx b)
    (h : mmapRegionsCompatible a b = true) : a.Coexist b := by
  have haEnd := ha.endVa
  have hbEnd := hb.endVa
  have haPa := ha.endPa
  have hbPa := hb.endPa
  unfold mmapRegionsCompatible at h
  simp only [ge_iff_le, gt_iff_lt, le_def, lt_def] at h
  split_ifs at h with hfull hdyn hoff hsame
  · -- One of the two has all addresses of the other.
    simp only [not_or, Bool.not_eq_true, not_not] at hdyn hoff
    refine .inl ⟨?_, hoff.symm, hdyn.1, hdyn.2⟩
    have hne : a.range ≠ b.range := by
      intro heq
      simp only [range, Range.mk.injEq] at heq
      exact hsame ⟨eq_of_toNat_eq heq.1, eq_of_toNat_eq (by omega)⟩
    rcases hfull with hin | hin
    · refine .inl ⟨?_, ?_, hne⟩ <;> simp only [range] <;> omega
    · refine .inr ⟨?_, ?_, hne.symm⟩ <;> simp only [range] <;> omega
  · simp only [decide_eq_true_eq] at h
    refine .inr ⟨?_, ?_⟩ <;>
      simp only [Range.Apart, range, paRange] <;> omega

end

/-! ### The largest addresses -/

/-- The largest value over the regions, and 0 if there are none. -/
def IsMaxOver (f : MmapRegion → U64) (rs : List MmapRegion) (m : U64) : Prop :=
  (∀ r ∈ rs, f r ≤ m) ∧ ((rs = [] ∧ m = 0) ∨ ∃ r ∈ rs, f r = m)

section

variable {f : MmapRegion → U64} {rs rs' : List MmapRegion} {mm : MmapRegion} {m : U64}

theorem IsMaxOver.raise (h : IsMaxOver f rs m) (hperm : rs'.Perm (mm :: rs)) :
    IsMaxOver f rs' (if f mm > m then f mm else m) := by
  have hmem : ∀ r, r ∈ rs' ↔ r = mm ∨ r ∈ rs := fun r => by rw [hperm.mem_iff, mem_cons]
  split_ifs with hgt
  · refine ⟨fun r hr => ?_, .inr ⟨mm, (hmem mm).mpr (.inl rfl), rfl⟩⟩
    rcases (hmem r).mp hr with rfl | hr
    · exact le_refl _
    · exact le_def.mpr
        ((le_def.mp (h.1 r hr)).trans (le_of_lt (lt_def.mp hgt)))
  · have hle := not_lt.mp hgt
    refine ⟨fun r hr => ?_, .inr ?_⟩
    · rcases (hmem r).mp hr with rfl | hr
      · exact hle
      · exact h.1 r hr
    · rcases h.2 with ⟨-, rfl⟩ | ⟨r, hr, hrm⟩
      · refine ⟨mm, (hmem mm).mpr (.inl rfl), ?_⟩
        exact eq_of_toNat_eq (Nat.le_zero.mp (le_def.mp hle))
      · exact ⟨r, (hmem r).mpr (.inr hr), hrm⟩

theorem isMaxOver_foldl (h : IsMaxOver f rs' m) :
    IsMaxOver f (rs' ++ rs) (rs.foldl (fun m mm => if f mm > m then f mm else m) m) := by
  induction rs generalizing rs' m with
  | nil => simpa using h
  | cons mm rs ih =>
    rw [foldl_cons, append_cons]
    exact ih (h.raise (perm_append_singleton mm rs'))

/-- A region less. The largest value is computed anew if the region had it. -/
theorem IsMaxOver.lower {mmap : List MmapRegion} (h : IsMaxOver f rs m)
    (hperm : rs.Perm (mm :: liveRegions mmap)) :
    IsMaxOver f (liveRegions mmap) (if f mm = m then maxOver f mmap else m) := by
  have hmem : ∀ r, r ∈ rs ↔ r = mm ∨ r ∈ liveRegions mmap := fun r => by
    rw [hperm.mem_iff, mem_cons]
  split_ifs with heq
  · have hnil : IsMaxOver f [] 0 := ⟨by simp, .inl ⟨rfl, rfl⟩⟩
    exact isMaxOver_foldl hnil
  · refine ⟨fun r hr => h.1 r ((hmem r).mpr (.inr hr)), ?_⟩
    rcases h.2 with ⟨rfl, -⟩ | ⟨r, hr, hrm⟩
    · exact absurd ((hmem mm).mpr (.inl rfl)) not_mem_nil
    · rcases (hmem r).mp hr with rfl | hr
      · exact absurd hrm heq
      · exact .inr ⟨r, hr, hrm⟩

end

/-! ### Writing the tables does not change the regions -/

variable {baseVa : U64} {ret : Int} {walk : XlatState → Nat → TableRef → Option XlatState}
  {level : Nat} {mmap : List MmapRegion} {attr : U32}

section

variable {ctx : XlatCtx} {mm : MmapRegion} {s s' : XlatState} {ref : TableRef}

theorem XlatState.sameRegions_write (s : XlatState) (ref : TableRef) (i : Nat) (desc : U64) :
    s.SameRegions (s.write ref i desc) := by
  cases ref <;> exact ⟨rfl, rfl, rfl, rfl⟩

theorem XlatState.sameRegions_addCount (s : XlatState) (j : Nat) (n : Int) :
    s.SameRegions (s.addCount j n) := ⟨rfl, rfl, rfl, rfl⟩

theorem sameRegions_addRegionsCount {n : Int} (h : s.addRegionsCount n ref = some s') :
    s.SameRegions s' := by
  cases ref with
  | base => cases h
  | sub j =>
    cases h
    exact s.sameRegions_addCount j n

/-- The walk leaves the regions alone. -/
def WalkKeeps (walk : XlatState → Nat → TableRef → Option XlatState) : Prop :=
  ∀ s va ref s', walk s va ref = some s' → s.SameRegions s'

theorem sameRegions_unmapEntry (hwalk : WalkKeeps walk) {idx va : Nat}
    (h : unmapEntry ctx mm level walk s ref idx va = some s') : s.SameRegions s' := by
  unfold unmapEntry at h
  dsimp only at h
  split at h
  · cases h
    exact s.sameRegions_write ref idx _
  · split at h
    · cases h
    next j _ =>
      obtain ⟨s₁, hs₁, rfl⟩ := map_eq_some_iff.mp h
      have hkeep := hwalk s va (.sub j) s₁ hs₁
      split
      · exact hkeep.trans (s₁.sameRegions_write ref idx _)
      · exact hkeep
  · cases h
    exact .refl s
  · cases h
  · cases h

theorem sameRegions_unmapLoop (hwalk : WalkKeeps walk) {s : XlatState} {idx va : Nat}
    (h : unmapLoop ctx mm level walk ref n s idx va = some s') : s.SameRegions s' := by
  induction n generalizing s idx va with
  | zero =>
    cases h
    exact .refl _
  | succ n ih =>
    obtain ⟨s₁, hs₁, hrest⟩ := bind_eq_some_iff.mp h
    have hen := sameRegions_unmapEntry hwalk hs₁
    split at hrest
    · cases hrest
      exact hen
    · exact hen.trans (ih hrest)

theorem sameRegions_unmapTable (hwalk : WalkKeeps walk) {b entries : Nat}
    (h : unmapTable ctx mm level walk s b ref entries = some s') : s.SameRegions s' := by
  unfold unmapTable at h
  obtain ⟨-, h⟩ := ite_none_left_eq_some.mp h
  obtain ⟨s₁, hs₁, hrest⟩ := bind_eq_some_iff.mp h
  have hloop := sameRegions_unmapLoop hwalk hs₁
  split at hrest
  · exact hloop.trans (sameRegions_addRegionsCount hrest)
  · cases hrest
    exact hloop

theorem sameRegions_xlatTablesUnmapRegion {d : Nat} :
    ∀ {s : XlatState} {b entries : Nat} {ref : TableRef},
      xlatTablesUnmapRegion ctx mm d s b ref entries = some s' → s.SameRegions s' := by
  induction d generalizing s' with
  | zero => exact fun h => sameRegions_unmapTable (fun _ _ _ _ h => by cases h) h
  | succ d ih => exact fun h => sameRegions_unmapTable (fun _ _ _ _ h => ih h) h

variable {walk : XlatState → Nat → TableRef → Option (XlatState × Nat)}

theorem sameRegions_mapEntry
    (hwalk : WalkKeeps fun s va ref => (walk s va ref).map fst) {idx va : Nat}
    {ret : Option Nat} (h : mapEntry ctx mm level walk s ref idx va = some (s', ret)) :
    s.SameRegions s' := by
  have hsub : ∀ {t : XlatState} {va : Nat} {r : TableRef} {e : Nat},
      (walk t va r).map (afterSubtable e) = some (s', ret) → t.SameRegions s' := by
    intro t va r e h
    obtain ⟨⟨t', e'⟩, ht', heq⟩ := map_eq_some_iff.mp h
    cases heq
    exact hwalk t va r t' (congrArg (Option.map fst) ht')
  unfold mapEntry at h
  dsimp only at h
  split at h
  · obtain ⟨desc, -, heq⟩ := map_eq_some_iff.mp h
    cases heq
    exact s.sameRegions_write ref idx desc
  · split at h
    · cases h
      exact .refl s
    · exact (s.sameRegions_write ref idx _).trans (hsub h)
  · split at h
    · cases h
    · exact hsub h
  · cases h
    exact .refl s
  · cases h

theorem sameRegions_mapLoop (hwalk : WalkKeeps fun s va ref => (walk s va ref).map fst) {e : Nat}
    {s : XlatState} {idx va : Nat} (h : mapLoop ctx mm level walk ref n s idx va = some (s', e)) :
    s.SameRegions s' := by
  induction n generalizing s idx va with
  | zero =>
    cases h
    exact .refl _
  | succ n ih =>
    rw [mapLoop] at h
    split at h
    · cases h
    next s₁ e' hen =>
      cases h
      exact sameRegions_mapEntry hwalk hen
    next s₁ hen =>
      have hfst := sameRegions_mapEntry hwalk hen
      split at h
      · cases h
        exact hfst
      · exact hfst.trans (ih h)

theorem sameRegions_mapTable
    (hwalk : WalkKeeps fun s va ref => (walk s va ref).map fst) {b entries e : Nat}
    (h : mapTable ctx mm level walk s b ref entries = some (s', e)) : s.SameRegions s' := by
  unfold mapTable at h
  obtain ⟨-, h⟩ := ite_none_left_eq_some.mp h
  obtain ⟨s₁, hs₁, hrest⟩ := bind_eq_some_iff.mp h
  have hloop := sameRegions_mapLoop hwalk hrest
  split at hs₁
  · exact (sameRegions_addRegionsCount hs₁).trans hloop
  · cases hs₁
    exact hloop

theorem sameRegions_xlatTablesMapRegion {d : Nat} :
    ∀ {s s' : XlatState} {b entries e : Nat} {ref : TableRef},
      xlatTablesMapRegion ctx mm d s b ref entries = some (s', e) → s.SameRegions s' := by
  induction d with
  | zero => exact fun h => sameRegions_mapTable (fun _ _ _ _ h => by cases h) h
  | succ d ih =>
    refine fun h => sameRegions_mapTable (fun t va r t' ht => ?_) h
    obtain ⟨⟨t₁, e₁⟩, ht₁, heq⟩ := map_eq_some_iff.mp ht
    cases heq
    exact ih ht₁

theorem sameRegions_mapRegions {mms : List MmapRegion} {s : XlatState}
    (h : mapRegions ctx s mms = some s') : s.SameRegions s' := by
  induction mms generalizing s with
  | nil =>
    cases h
    exact .refl _
  | cons mm mms ih =>
    rw [mapRegions] at h
    split at h
    · cases h
    next s₁ e hmap =>
      split_ifs at h
      exact (sameRegions_xlatTablesMapRegion hmap).trans (ih h)

theorem sameRegions_changePages {s : XlatState} {va : U64}
    (h : changePages ctx attr n s va = some s') : s.SameRegions s' := by
  induction n generalizing s va with
  | zero =>
    cases h
    exact .refl _
  | succ n ih =>
    obtain ⟨s₁, hs₁, hrest⟩ := bind_eq_some_iff.mp h
    refine XlatState.SameRegions.trans ?_ (ih hrest)
    unfold changePage at hs₁
    split at hs₁
    next old _ =>
      obtain ⟨desc, -, rfl⟩ := map_eq_some_iff.mp hs₁
      exact (s.sameRegions_write _ _ _).trans (sameRegions_write _ _ _ _)
    · cases hs₁

/-- Setting up the tables keeps the regions. -/
theorem initXlatTablesCtx_eq_some {ctx : XlatCtx} {s s' : XlatState}
    (h : initXlatTablesCtx ctx s = some s') : s'.live = s.live ∧ s'.initialized = true := by
  unfold initXlatTablesCtx at h
  split_ifs at h
  obtain ⟨t, ht, h⟩ := bind_eq_some_iff.mp h
  split_ifs at h
  cases h
  exact ⟨congrArg liveRegions (sameRegions_mapRegions ht).mmap, rfl⟩

theorem sameRegions_xlatChangeMemAttributesCtx
    (h : xlatChangeMemAttributesCtx ctx s baseVa size attr = some (s', ret)) :
    s.SameRegions s' := by
  have hself : ∀ {r : Int}, some (s, r) = some (s', ret) → s.SameRegions s' := by
    intro r heq
    cases heq
    exact .refl s
  unfold xlatChangeMemAttributesCtx at h
  split_ifs at h <;> try exact hself h
  dsimp only at h
  split at h
  · cases h
  · exact hself h
  · split_ifs at h
    obtain ⟨s₁, hs₁, heq⟩ := map_eq_some_iff.mp h
    cases heq
    exact sameRegions_changePages hs₁

end

/-! ### The invariant -/

/-- The regions of a context are in order. -/
structure MmapOk (ctx : XlatCtx) (s : XlatState) : Prop where
  array : MmapArray ctx s.mmap s.live
  valid : ∀ mm ∈ s.live, RegionOk ctx mm
  sorted : s.live.Pairwise MmapRegion.Before
  coexist : s.live.Pairwise MmapRegion.Coexist
  maxVa : IsMaxOver endVa s.live s.maxVa
  maxPa : IsMaxOver endPa s.live s.maxPa

/-- The list of regions with one more at its place. -/
def XlatState.inserted (s : XlatState) (mm : MmapRegion) : List MmapRegion :=
  s.live.take (insertPosition s.mmap mm) ++ mm :: s.live.drop (insertPosition s.mmap mm)

section

variable {ctx : XlatCtx} {mm : MmapRegion} {s s' : XlatState}

theorem MmapOk.congr (h : MmapOk ctx s) (hmmap : s'.mmap = s.mmap) (hva : s'.maxVa = s.maxVa)
    (hpa : s'.maxPa = s.maxPa) : MmapOk ctx s' := by
  have hlive : s'.live = s.live := congrArg liveRegions hmmap
  obtain ⟨harr, hval, hsrt, hcoex, hmaxVa, hmaxPa⟩ := h
  constructor
  · rwa [hmmap, hlive]
  · rwa [hlive]
  · rwa [hlive]
  · rwa [hlive]
  · rwa [hlive, hva]
  · rwa [hlive, hpa]

theorem XlatState.inserted_perm (s : XlatState) (mm : MmapRegion) :
    (s.inserted mm).Perm (mm :: s.live) := by
  have hperm : (s.inserted mm).Perm (mm :: (s.live.take (insertPosition s.mmap mm) ++
      s.live.drop (insertPosition s.mmap mm))) := perm_middle
  rw [take_append_drop] at hperm
  exact hperm

/-- A region that may coexist with another one and does not go before it goes after
it. -/
theorem MmapRegion.Coexist.before_of_not {a b : MmapRegion} (ha : RegionOk ctx a)
    (hb : RegionOk ctx b) (h : a.Coexist b) (hnot : ¬ b.Before a) : a.Before b := by
  have haEnd := ha.endVa
  have hbEnd := hb.endVa
  have hbpos := hb.size_pos
  have hne : a.range ≠ b.range := by
    intro heq
    rcases h with ⟨hin | hin, -⟩ | ⟨hap, -⟩
    · exact hin.2.2 heq
    · exact hin.2.2 heq.symm
    · rw [heq] at hap
      simp only [Range.Apart, range] at hap
      omega
  simp only [range, ne_eq, Range.mk.injEq] at hne
  unfold MmapRegion.Before at hnot ⊢
  simp only [lt_def, ← toNat_inj] at hnot ⊢
  omega

/-- A region that passes the checks keeps the array in order at its place. -/
theorem MmapOk.insert (h : MmapOk ctx s) (hsize : mm.size ≠ 0)
    (hchk : mmapAddRegionCheck ctx s mm = 0)
    (hmmap : MmapArray ctx s'.mmap (s.inserted mm))
    (hva : s'.maxVa = if mm.endVa > s.maxVa then mm.endVa else s.maxVa)
    (hpa : s'.maxPa = if mm.endPa > s.maxPa then mm.endPa else s.maxPa) : MmapOk ctx s' := by
  obtain ⟨hmm, -, hcmp⟩ := mmapAddRegionCheck_eq_zero hsize hchk
  have hlive : s'.live = s.inserted mm := hmmap.live_eq
  have hperm := s.inserted_perm mm
  have hco : ∀ r ∈ s.live, mm.Coexist r := fun r hr =>
    coexist_of_compatible hmm (h.valid r hr) (hcmp r hr)
  obtain ⟨-, hbef, haf⟩ := insertPosition_split h.array h.sorted mm
  constructor
  · rw [hlive]
    exact hmmap
  · intro r hr
    rw [hlive, hperm.mem_iff, mem_cons] at hr
    rcases hr with rfl | hr
    · exact hmm
    · exact h.valid r hr
  · rw [hlive, inserted]
    have hspl := h.sorted
    rw [← take_append_drop (insertPosition s.mmap mm) s.live, pairwise_append] at hspl
    obtain ⟨hfrt, hback, hcro⟩ := hspl
    refine pairwise_append.mpr ⟨hfrt, pairwise_cons.mpr ⟨fun r hr => ?_, hback⟩,
      fun a ha => forall_mem_cons.mpr ⟨hbef a ha, hcro a ha⟩⟩
    have hmem := mem_of_mem_drop hr
    exact (hco r hmem).before_of_not hmm (h.valid r hmem) (haf r hr)
  · rw [hlive, hperm.pairwise_iff fun h => h.symm]
    exact pairwise_cons.mpr ⟨hco, h.coexist⟩
  · rw [hlive, hva]
    exact h.maxVa.raise hperm
  · rw [hlive, hpa]
    exact h.maxPa.raise hperm

theorem MmapOk.room (h : MmapOk ctx s) (hroom : sizeAt s.mmap (ctx.mmapNum - 1) = 0) :
    s.live.length < ctx.mmapNum := by
  have hle := h.array.sizeAt_eq_zero.mp hroom
  have hpos := ctx.mmapNum_pos
  omega

theorem mmapAddRegionCtx_eq_some (hok : MmapOk ctx s) (h : mmapAddRegionCtx ctx s mm = some s') :
    s' = s ∨ (s.initialized = false ∧ mm.size ≠ 0 ∧ mmapAddRegionCheck ctx s mm = 0 ∧
      ∃ mmap, MmapArray ctx mmap (s.inserted mm) ∧ s' = { s with mmap := mmap }.raiseMax mm) := by
  unfold mmapAddRegionCtx at h
  split_ifs at h with hsize hinit hchk
  · exact .inl (some.inj h).symm
  · exact .inl (some.inj h).symm
  · rw [not_not] at hchk
    have hlen : min s.live.length ctx.mmapNum = s.live.length :=
      min_eq_left hok.array.length_le
    obtain ⟨hle, -, -⟩ := insertPosition_split hok.array hok.sorted mm
    have hroom := hok.room (mmapAddRegionCheck_eq_zero hsize hchk).2.1
    simp only [hlen] at h
    split_ifs at h
    refine .inr ⟨by simpa using hinit, hsize, hchk, _, hok.array.insert hle hroom hsize le_rfl
      (by omega), ?_⟩
    exact (some.inj h).symm

/-- A region with the mark of a dynamic one. -/
def MmapRegion.asDynamic (mm : MmapRegion) : MmapRegion := { mm with attr := mm.attr ||| mtDynamic }

/-- What `mmap_add_dynamic_region_ctx` does up to the point where the region is in the
array. -/
theorem mmapAddDynamicRegionCtx_eq_some (hok : MmapOk ctx s)
    (h : mmapAddDynamicRegionCtx ctx s mm = some (s', ret)) :
    (mm.size = 0 ∧ s' = s ∧ ret = 0) ∨
    (mm.size ≠ 0 ∧ s' = s ∧ ret = mmapAddRegionCheck ctx s mm.asDynamic ∧ ret ≠ 0) ∨
    (mm.size ≠ 0 ∧ mmapAddRegionCheck ctx s mm.asDynamic = 0 ∧
      ∃ mmap, MmapArray ctx mmap (s.inserted mm.asDynamic) ∧
        mapDynamicRegion ctx { s with mmap := mmap } mm.asDynamic
          (insertPosition s.mmap mm.asDynamic) = some (s', ret)) := by
  unfold mmapAddDynamicRegionCtx at h
  dsimp only at h
  split_ifs at h with hsize hchk
  · cases h
    exact Or.inl ⟨hsize, rfl, rfl⟩
  · cases h
    exact Or.inr (.inl ⟨hsize, rfl, rfl, hchk⟩)
  · rw [not_not] at hchk
    have hsize' : mm.asDynamic.size ≠ 0 := hsize
    obtain ⟨hle, -, -⟩ := insertPosition_split hok.array hok.sorted mm.asDynamic
    have hroom := hok.room (mmapAddRegionCheck_eq_zero hsize' hchk).2.1
    exact .inr (.inr ⟨hsize, hchk, _, hok.array.insert hle hroom hsize' (by omega) le_rfl, h⟩)

/-- What `mmap_add_dynamic_region_ctx` does once the region is in the array. -/
theorem mapDynamicRegion_eq_some (hok : MmapOk ctx s) (hmmap : MmapArray ctx mmap (s.inserted mm))
    (h : mapDynamicRegion ctx { s with mmap := mmap } mm (insertPosition s.mmap mm) =
      some (s', ret)) :
    (s.initialized = false ∧ s' = { s with mmap := mmap }.raiseMax mm ∧ ret = 0) ∨
    (s.initialized = true ∧ ∃ s₁ endVa,
      mapRegion ctx { s with mmap := mmap } mm = some (s₁, endVa) ∧
      ((endVa = mm.endVa.toNat ∧ s' = s₁.raiseMax mm ∧ ret = 0) ∨
      (endVa ≠ mm.endVa.toNat ∧ ret = -eNoMem ∧
        ((endVa ≤ mm.baseVa.toNat ∧ s' = { s₁ with mmap := s.mmap }) ∨
        (mm.baseVa.toNat < endVa ∧
          unmapRegion ctx { s₁ with mmap := s.mmap } (undoRegion mm endVa) = some s'))))) := by
  unfold mapDynamicRegion at h
  split_ifs at h with hinit
  · refine .inr ⟨hinit, ?_⟩
    split at h
    · cases h
    next s₁ endVa hmap =>
      refine ⟨s₁, endVa, hmap, ?_⟩
      have hsame : s₁.mmap = mmap := (sameRegions_xlatTablesMapRegion hmap).mmap
      have hback : memmove s₁.mmap (insertPosition s.mmap mm) (insertPosition s.mmap mm + 1)
          (ctx.mmapNum - insertPosition s.mmap mm) = s.mmap := by
        rw [hsame]
        exact hok.array.remove_insert (insertPosition_split hok.array hok.sorted mm).1 hmmap
      rw [hback] at h
      split_ifs at h with hend hnone
      · cases h
        exact .inr ⟨hend, rfl, .inl ⟨hnone, rfl⟩⟩
      · obtain ⟨s₂, hs₂, heq⟩ := map_eq_some_iff.mp h
        cases heq
        exact .inr ⟨hend, rfl, .inr ⟨not_le.mp hnone, hs₂⟩⟩
      · cases h
        exact .inl ⟨not_not.mp hend, rfl, rfl⟩
  · cases h
    exact .inl ⟨by simpa using hinit, rfl, rfl⟩

/-- The state after a region is out of the array. -/
def XlatState.dropRegion (s : XlatState) (mm : MmapRegion) (mmap : List MmapRegion) : XlatState :=
  { s with
    mmap := mmap
    maxVa := if mm.endVa = s.maxVa then maxOver endVa mmap else s.maxVa
    maxPa := if mm.endPa = s.maxPa then maxOver endPa mmap else s.maxPa }

/-- The region with the given base and size. -/
def MmapRegion.Is (mm : MmapRegion) (baseVa size : U64) : Prop :=
  mm.baseVa = baseVa ∧ mm.size = size

instance (mm : MmapRegion) (baseVa size : U64) : Decidable (mm.Is baseVa size) :=
  inferInstanceAs (Decidable (_ ∧ _))

theorem mmapRemoveDynamicRegionCtx_not_found (hok : MmapOk ctx s)
    (hno : ∀ r ∈ s.live, ¬ r.Is baseVa size) :
    mmapRemoveDynamicRegionCtx ctx s baseVa size = some (s, -eInval) := by
  have hlast : sizeAt s.mmap ctx.mmapNum = 0 :=
    hok.array.sizeAt_eq_zero.mpr hok.array.length_le
  have hcur : s.live.takeWhile (fun mm => ¬ (mm.baseVa = baseVa ∧ mm.size = size)) = s.live :=
    takeWhile_eq_self_iff.mpr fun r hr => decide_eq_true (hno r hr)
  have hend : (s.mmap.getD s.live.length .zero).size = 0 :=
    hok.array.sizeAt_eq_zero.mpr le_rfl
  unfold mmapRemoveDynamicRegionCtx
  rw [if_neg (not_not.mpr hlast), hcur, if_pos hend]

/-- What `mmap_remove_dynamic_region_ctx` does with a region that it finds. -/
theorem mmapRemoveDynamicRegionCtx_found {front back : List MmapRegion} (hok : MmapOk ctx s)
    (hlive : s.live = front ++ mm :: back) (hfrt : ∀ r ∈ front, ¬ r.Is baseVa size)
    (hmm : mm.Is baseVa size) :
    ∃ mmap, MmapArray ctx mmap (front ++ back) ∧ mmapRemoveDynamicRegionCtx ctx s baseVa size =
        if mm.isDynamic then
          (if s.initialized then unmapRegion ctx s mm else some s).map fun s =>
            (s.dropRegion mm mmap, 0)
        else some (s, -ePerm) := by
  have hlast : sizeAt s.mmap ctx.mmapNum = 0 :=
    hok.array.sizeAt_eq_zero.mpr hok.array.length_le
  have hcur : (s.live.takeWhile
      (fun mm => ¬ (mm.baseVa = baseVa ∧ mm.size = size))).length = front.length := by
    have hpass : ∀ r ∈ front, decide (¬ (r.baseVa = baseVa ∧ r.size = size)) = true :=
      fun r hr => decide_eq_true (hfrt r hr)
    rw [hlive, takeWhile_append_of_pos hpass,
      takeWhile_cons_of_neg (by simpa [MmapRegion.Is] using hmm), append_nil]
  have harr := hok.array
  rw [hlive] at harr
  have hrem := harr.remove (c := front.length) (by simp)
  rw [take_left, drop_length_add_append] at hrem
  have hget : s.mmap.getD front.length .zero = mm := by
    obtain ⟨k, -, -, heq, -⟩ := harr
    rw [heq, append_assoc, getD_append_right _ _ _ _ le_rfl, Nat.sub_self]
    rfl
  have hsize : mm.size ≠ 0 := by
    obtain ⟨-, -, -, -, hne⟩ := harr
    exact hne mm (by simp)
  refine ⟨_, hrem, ?_⟩
  unfold mmapRemoveDynamicRegionCtx
  rw [if_neg (not_not.mpr hlast)]
  dsimp only
  rw [hcur, hget, if_neg hsize]
  by_cases hdyn : mm.isDynamic = true
  · split_ifs with hinit
    · cases hunm : unmapRegion ctx s mm with
      | none => rfl
      | some s₁ =>
        have hsame : s₁.mmap = s.mmap := (sameRegions_xlatTablesUnmapRegion hunm).mmap
        simp only [map_some, hsame]
        rfl
    · rfl
  · rw [if_pos hdyn, if_neg hdyn]

theorem mmapRemoveDynamicRegionCtx_eq_some (hok : MmapOk ctx s)
    (h : mmapRemoveDynamicRegionCtx ctx s baseVa size = some (s', ret)) :
    s' = s ∨ ∃ front mm back mmap s₁, s.live = front ++ mm :: back ∧ mm.isDynamic = true ∧
      MmapArray ctx mmap (front ++ back) ∧
      (if s.initialized then unmapRegion ctx s mm else some s) = some s₁ ∧
      s' = s₁.dropRegion mm mmap := by
  by_cases hno : ∀ r ∈ s.live, ¬ r.Is baseVa size
  · rw [mmapRemoveDynamicRegionCtx_not_found hok hno] at h
    exact .inl (congrArg fst (some.inj h)).symm
  · -- The first region with that base and size is the one.
    cases hdrop : s.live.dropWhile (fun r => decide (¬ (r.baseVa = baseVa ∧ r.size = size))) with
    | nil =>
      refine absurd (fun r hr => ?_) hno
      exact of_decide_eq_true (dropWhile_eq_nil_iff.mp hdrop r hr)
    | cons mm back =>
      have hhead := not_head_dropWhile hdrop
      have hmm : mm.Is baseVa size := not_not.mp (of_decide_eq_false hhead)
      have hlive := takeWhile_append_dropWhile
        (p := fun r => decide (¬ (r.baseVa = baseVa ∧ r.size = size))) (l := s.live)
      rw [hdrop] at hlive
      obtain ⟨mmap, hmmap, heq⟩ := mmapRemoveDynamicRegionCtx_found hok hlive.symm
        (fun r hr => of_decide_eq_true (mem_takeWhile_imp hr :)) hmm
      rw [heq] at h
      by_cases hdyn : mm.isDynamic = true
      · rw [if_pos hdyn] at h
        obtain ⟨s₁, hs₁, heq⟩ := map_eq_some_iff.mp h
        exact .inr ⟨_, mm, back, mmap, s₁, hlive.symm, hdyn, hmmap, hs₁, (congrArg fst heq).symm⟩
      · rw [if_neg hdyn] at h
        exact .inl (congrArg fst (some.inj h)).symm

theorem MmapOk.remove {front back : List MmapRegion}
    (h : MmapOk ctx s) (hlive : s.live = front ++ mm :: back)
    (hmmap : MmapArray ctx mmap (front ++ back)) : MmapOk ctx (s.dropRegion mm mmap) := by
  have hlive' : (s.dropRegion mm mmap).live = front ++ back := hmmap.live_eq
  have hsub : (front ++ back).Sublist s.live := by
    rw [hlive]
    exact (sublist_cons_self mm back).append_left front
  have hperm : s.live.Perm (mm :: liveRegions mmap) := by
    rw [hlive, hmmap.live_eq]
    exact perm_middle
  constructor
  · rw [hlive']
    exact hmmap
  · intro r hr
    rw [hlive'] at hr
    exact h.valid r (hsub.subset hr)
  · rw [hlive']
    exact h.sorted.sublist hsub
  · rw [hlive']
    exact h.coexist.sublist hsub
  · exact h.maxVa.lower hperm
  · exact h.maxPa.lower hperm

theorem XlatState.Registered.mmapOk (h : s.Registered ctx) : MmapOk ctx s := by
  have harr : MmapArray ctx s.mmap [] :=
    ⟨ctx.mmapNum + 1, Nat.succ_pos _, by simp, by rw [h.mmap]; rfl, by simp⟩
  have hlive : s.live = [] := harr.live_eq
  constructor
  · rw [hlive]
    exact harr
  · simp [hlive]
  · simp [hlive]
  · simp [hlive]
  · exact ⟨by simp [hlive], .inl ⟨hlive, h.maxVa⟩⟩
  · exact ⟨by simp [hlive], .inl ⟨hlive, h.maxPa⟩⟩

theorem MmapOk.step (hok : MmapOk ctx s) {op : XlatOp} (h : s.step ctx op = some s') :
    MmapOk ctx s' := by
  cases op with
  | addRegion mm =>
    rcases mmapAddRegionCtx_eq_some hok h with rfl | ⟨-, hsize, hchk, mmap, hmmap, rfl⟩
    · exact hok
    · exact hok.insert hsize hchk hmmap rfl rfl
  | addDynamicRegion mm =>
    obtain ⟨⟨t, ret⟩, ht, rfl⟩ := map_eq_some_iff.mp h
    rcases mmapAddDynamicRegionCtx_eq_some hok ht with
      ⟨-, rfl, -⟩ | ⟨-, rfl, -⟩ | ⟨hsize, hchk, mmap, hmmap, hmap⟩
    · exact hok
    · exact hok
    · have hsize' : mm.asDynamic.size ≠ 0 := hsize
      rcases mapDynamicRegion_eq_some hok hmmap hmap with ⟨-, rfl, -⟩ | ⟨-, s₁, endVa, hs₁, hrest⟩
      · exact hok.insert hsize' hchk hmmap rfl rfl
      · have hsame := sameRegions_xlatTablesMapRegion hs₁
        rcases hrest with ⟨-, rfl, -⟩ | ⟨-, -, ⟨-, rfl⟩ | ⟨-, hundo⟩⟩
        · have hmmap₁ : s₁.mmap = mmap := hsame.mmap
          rw [← hmmap₁] at hmmap
          refine hok.insert hsize' hchk hmmap ?_ ?_
          · simp [raiseMax, hsame.maxVa]
          · simp [raiseMax, hsame.maxPa]
        · exact hok.congr rfl hsame.maxVa hsame.maxPa
        · have hsame' := sameRegions_xlatTablesUnmapRegion hundo
          exact hok.congr hsame'.mmap (hsame'.maxVa.trans hsame.maxVa)
            (hsame'.maxPa.trans hsame.maxPa)
  | removeDynamicRegion =>
    obtain ⟨⟨t, ret⟩, ht, rfl⟩ := map_eq_some_iff.mp h
    rcases mmapRemoveDynamicRegionCtx_eq_some hok ht with
      rfl | ⟨front, mm, back, mmap, s₁, hlive, -, hmmap, hs₁, rfl⟩
    · exact hok
    · have hsame : s.SameRegions s₁ := by
        split at hs₁
        · exact sameRegions_xlatTablesUnmapRegion hs₁
        · cases hs₁
          exact .refl s
      refine (hok.congr hsame.mmap hsame.maxVa hsame.maxPa).remove ?_ hmmap
      rw [← hlive]
      exact congrArg liveRegions hsame.mmap
  | init =>
    unfold XlatState.step initXlatTablesCtx at h
    split_ifs at h
    obtain ⟨s₁, hs₁, hrest⟩ := bind_eq_some_iff.mp h
    have hsame := sameRegions_mapRegions hs₁
    split_ifs at hrest
    cases hrest
    exact hok.congr hsame.mmap hsame.maxVa hsame.maxPa
  | changeMemAttributes =>
    obtain ⟨⟨t, ret⟩, ht, rfl⟩ := map_eq_some_iff.mp h
    have hsame := sameRegions_xlatChangeMemAttributesCtx ht
    exact hok.congr hsame.mmap hsame.maxVa hsame.maxPa

/-- **The regions are in order in every reachable state**: sorted by end and then by
size, with an unused entry after them; any two nested or apart; and the largest
addresses as recorded. -/
theorem regions_in_order {ops : List XlatOp} (hreg : s.Registered ctx)
    (hrun : run (XlatState.step ctx) s ops = some s') :
    s'.live.Pairwise MmapRegion.Before ∧
    (s'.mmap.length = ctx.mmapNum + 1 ∧ s'.live.length ≤ ctx.mmapNum ∧
      sizeAt s'.mmap s'.live.length = 0) ∧
    s'.live.Pairwise MmapRegion.Coexist ∧
    IsMaxOver endVa s'.live s'.maxVa ∧ IsMaxOver endPa s'.live s'.maxPa := by
  have hok : MmapOk ctx s' :=
    run_invariant (fun _ _ _ hok hstep => MmapOk.step hok hstep) hreg.mmapOk hrun
  refine ⟨hok.sorted, ⟨?_, hok.array.length_le, ?_⟩, hok.coexist, hok.maxVa, hok.maxPa⟩
  · obtain ⟨k, -, hlen, heq, -⟩ := hok.array
    rw [heq, length_append, length_replicate, hlen]
  · exact hok.array.sizeAt_eq_zero.mpr le_rfl

/-- Two regions inside a third one, and a dynamic one that is removed again. -/
def nestedRegions : List XlatOp :=
  [.addRegion (sampleRegion 0x100000 0x100000 0x10000),
    .addRegion (sampleRegion 0x102000 0x102000 0x1000),
    .addRegion (sampleRegion 0x10F000 0x10F000 0x1000),
    .addDynamicRegion (sampleRegion 0x200000 0x200000 0x1000),
    .removeDynamicRegion 0x200000 0x1000]

theorem regions_in_order_nested :
    ∃ s', run (XlatState.step (sampleCtx 0xFFFFFFFF 4)) (.blank (sampleCtx 0xFFFFFFFF 4))
        nestedRegions = some s' ∧
      (s'.maxVa = 0x10FFFF ∧ s'.live = [sampleRegion 0x102000 0x102000 0x1000,
        sampleRegion 0x10F000 0x10F000 0x1000, sampleRegion 0x100000 0x100000 0x10000]) ∧
      s'.live.Pairwise MmapRegion.Before ∧ s'.live.Pairwise MmapRegion.Coexist := by
  refine exists_some_imp (by decide +kernel)
    fun s' hrun hend => ⟨hend, ?_⟩
  obtain ⟨hsrt, -, hco, -⟩ := regions_in_order (blank_registered _) hrun
  exact ⟨hsrt, hco⟩

/-- **The order of the calls does not matter.** Contexts with the same regions have the same array
and the same largest addresses, whichever calls they went through. -/
theorem regions_canonical {s₁ s₂ t₁ t₂ : XlatState} {ops₁ ops₂ : List XlatOp}
    (hreg₁ : s₁.Registered ctx) (hrun₁ : run (XlatState.step ctx) s₁ ops₁ = some t₁)
    (hreg₂ : s₂.Registered ctx) (hrun₂ : run (XlatState.step ctx) s₂ ops₂ = some t₂)
    (hperm : t₁.live.Perm t₂.live) :
    t₁.mmap = t₂.mmap ∧ t₁.maxVa = t₂.maxVa ∧ t₁.maxPa = t₂.maxPa := by
  have hok : ∀ {s t ops}, s.Registered ctx → run (XlatState.step ctx) s ops = some t →
      MmapOk ctx t := fun hreg hrun =>
    run_invariant (fun _ _ _ hok hstep => MmapOk.step hok hstep) hreg.mmapOk hrun
  obtain ⟨⟨k₁, -, hlen₁, harr₁, -⟩, -, hsrt₁, -, hva₁, hpa₁⟩ := hok hreg₁ hrun₁
  obtain ⟨⟨k₂, -, hlen₂, harr₂, -⟩, -, hsrt₂, -, hva₂, hpa₂⟩ := hok hreg₂ hrun₂
  have hlive : t₁.live = t₂.live := by
    refine hperm.eq_of_pairwise (fun a b _ _ hab hba => ?_) hsrt₁ hsrt₂
    unfold Before at hab hba
    bv_omega
  rw [hlive] at hlen₁ harr₁ hva₁ hpa₁
  have hle : ∀ {f m m'}, IsMaxOver f t₂.live m → IsMaxOver f t₂.live m' → m ≤ m' := by
    rintro f m m' ⟨-, ⟨-, rfl⟩ | ⟨r, hr, rfl⟩⟩ ⟨hle, -⟩
    · bv_omega
    · exact hle r hr
  refine ⟨?_, BitVec.le_antisymm (hle hva₁ hva₂) (hle hva₂ hva₁),
    BitVec.le_antisymm (hle hpa₁ hpa₂) (hle hpa₂ hpa₁)⟩
  rw [harr₁, harr₂, Nat.add_left_cancel (hlen₁.trans hlen₂.symm)]

/-- Without the region that is added and removed again. -/
theorem regions_canonical_nested :
    ∃ t₁, run (XlatState.step (sampleCtx 0xFFFFFFFF 4)) (.blank (sampleCtx 0xFFFFFFFF 4))
        nestedRegions = some t₁ ∧
      ∃ t₂, run (XlatState.step (sampleCtx 0xFFFFFFFF 4)) (.blank (sampleCtx 0xFFFFFFFF 4))
        (nestedRegions.take 3) = some t₂ ∧ t₁.mmap = t₂.mmap := by
  refine exists_some_imp (q := fun t₁ => ∃ t₂, _ = some t₂ ∧ t₁.live = t₂.live)
    (by decide +kernel) fun t₁ h₁ => Exists.imp fun t₂ h => ⟨h.1, ?_⟩
  exact (regions_canonical (blank_registered _) h₁ (blank_registered _) h.1 (.of_eq h.2)).1

end

end TrustedFirmware.Xlat
