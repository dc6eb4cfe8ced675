import Mathlib.Data.List.Perm.Subperm
import Mathlib.Logic.Relation

/-!
# The list of the images to hand over to (`desc_image_load.c`)

The images are linked by their identifiers. The loop over the images is bounded, and asserts of the
last node only that it has no link yet; that is enough, since a node of a cycle would get its link a
second time.
-/

namespace TrustedFirmware.DescImageLoad

open Function List Option Relation

abbrev U32 := BitVec 32

def invalidImageId : U32 := 0xFFFFFFFF

/-- What is read of a `bl_mem_params_node_t`. -/
structure MemParams where
  imageId : U32
  /-- `ep_info.h.attr` -/
  attr : U32
  nextHandoffImageId : U32

/-- `EP_GET_EXE` is `EXECUTABLE`. -/
def MemParams.executable (d : MemParams) : Bool := d.attr &&& 0x8 = 0x8

/-- `EP_GET_FIRST_EXE` is `EP_FIRST_EXE`. -/
def MemParams.firstExe (d : MemParams) : Bool := d.attr &&& 0x10 = 0x10

/-- `get_bl_params_node_index`, none for -1. -/
def getBlParamsNodeIndex (descs : List MemParams) (imageId : U32) : Option Nat :=
  descs.findIdx? (·.imageId = imageId)

/-- The last node gets its link. -/
def link (last : Option Nat) (i : Nat) (next : Nat → Option Nat) : Nat → Option Nat :=
  last.elim next fun l => update next l (some i)

/-- The loop that links the nodes, with the rounds that are left. A node stands for its descriptor,
whose identifier and pointers it gets; `next` has the links, and `none` is a failed assertion. -/
def linkLoop (descs : List MemParams) :
    (rounds linkIndex : Nat) → (last : Option Nat) → (Nat → Option Nat) → Option (Nat → Option Nat)
  | 0, _, _, _ => none
  | rounds + 1, linkIndex, last, next => do
    let desc ← descs[linkIndex]?
    if !desc.executable then none
    -- Assert if loop detected
    else if last.any (next · ≠ none) then none
    else if desc.nextHandoffImageId = invalidImageId then some (link last linkIndex next)
    else do
      let index ← getBlParamsNodeIndex descs desc.nextHandoffImageId
      if index = 0 then none
      else linkLoop descs rounds index (some linkIndex) (link last linkIndex next)

/-- The images marked as executable and first begin the list. -/
def findHead (descs : List MemParams) : Option Nat :=
  descs.findIdx? fun d => d.executable && d.firstExe

/-- `get_next_bl_params_from_mem_params_desc`, called for the first time: NULL, or the head of the
list and the links. -/
def getNextBlParams (descs : List MemParams) : Option (Option (Nat × (Nat → Option Nat))) :=
  if descs.length = 0 then some none
  else do
    let head ← findHead descs
    let next ← linkLoop descs descs.length head none fun _ => none
    some (some (head, next))

/-- The first descriptor with a property. -/
def FirstWith (p : MemParams → Prop) (descs : List MemParams) (i : Nat) : Prop :=
  (∃ d, descs[i]? = some d ∧ p d) ∧ ∀ k < i, ∀ d, descs[k]? = some d → ¬ p d

/-- The image that the list is to start with. -/
def IsHead (descs : List MemParams) : Nat → Prop :=
  FirstWith (fun d => d.executable = true ∧ d.firstExe = true) descs

/-- The descriptor and its hand-off image. -/
def Handoff (descs : List MemParams) (i j : Nat) : Prop :=
  ∃ d, descs[i]? = some d ∧ d.nextHandoffImageId ≠ invalidImageId ∧
    FirstWith (·.imageId = d.nextHandoffImageId) descs j

/-- The nodes from `i` up to NULL are linked as the images are handed over to, and executable. -/
inductive Linked (descs : List MemParams) (next : Nat → Option Nat) : Nat → List Nat → Prop
  | last {i : Nat} {d : MemParams} : descs[i]? = some d → d.executable = true →
      d.nextHandoffImageId = invalidImageId → next i = none → Linked descs next i [i]
  | cons {i j : Nat} {d : MemParams} {l : List Nat} : descs[i]? = some d → d.executable = true →
      Handoff descs i j → next i = some j → Linked descs next j l → Linked descs next i (i :: l)

variable {descs : List MemParams} {i j : Nat} {l : List Nat} {next next' : Nat → Option Nat}

theorem Linked.mem (h : Linked descs next i l) : i ∈ l := by
  cases h <;> exact mem_cons_self

theorem FirstWith.unique {p : MemParams → Prop} (hi : FirstWith p descs i)
    (hj : FirstWith p descs j) : i = j := by
  obtain ⟨⟨d, hd, hp⟩, hmin⟩ := hi
  obtain ⟨⟨d', hd', hp'⟩, hmin'⟩ := hj
  exact Nat.le_antisymm (Nat.not_lt.mp fun hlt => hmin j hlt d' hd' hp')
    (Nat.not_lt.mp fun hlt => hmin' i hlt d hd hp)

/-- What the loops over the descriptors find. -/
theorem findIdx?_eq_some_iff_firstWith {p : MemParams → Bool} :
    descs.findIdx? p = some i ↔ FirstWith (p · = true) descs i := by
  simp only [findIdx?_eq_some_iff_getElem, FirstWith, getElem?_eq_some_iff]
  constructor
  · rintro ⟨hi, hp, hmin⟩
    refine ⟨⟨_, ⟨hi, rfl⟩, hp⟩, ?_⟩
    rintro k hk d ⟨-, rfl⟩
    exact hmin k hk
  · rintro ⟨⟨d, ⟨hi, rfl⟩, hp⟩, hmin⟩
    exact ⟨hi, hp, fun k hk => hmin k hk _ ⟨Nat.lt_trans hk hi, rfl⟩⟩

theorem findHead_eq_some_iff : findHead descs = some i ↔ IsHead descs i := by
  simp [findHead, findIdx?_eq_some_iff_firstWith, IsHead]

theorem getBlParamsNodeIndex_eq_some_iff {imageId : U32} :
    getBlParamsNodeIndex descs imageId = some i ↔ FirstWith (·.imageId = imageId) descs i := by
  simp [getBlParamsNodeIndex, findIdx?_eq_some_iff_firstWith]

/-- A loop that ends keeps the links that it finds, and visits only nodes without one. -/
theorem linkLoop_eq_some {rounds : Nat} {last : Option Nat}
    (h : linkLoop descs rounds i last next = some next')
    (hnext : ∀ k j, link last i next k = some j → Handoff descs k j) :
    (∀ k, last = some k → next k = none) ∧
    (∀ k j, link last i next k = some j → next' k = some j) ∧
    ∃ l, Linked descs next' i l ∧ l.Nodup ∧ ∀ k ∈ l, link last i next k = none := by
  induction rounds generalizing i last next with
  | zero => cases h
  | succ rounds ih =>
    obtain ⟨d, hd, h⟩ := bind_eq_some_iff.mp h
    have hlast (hloop : ¬ last.any (next · ≠ none) = true) (k) (hk : last = some k) :
        next k = none := by
      subst hk
      simpa using hloop
    split_ifs at h with hexe hloop hid
    · cases h
      have hend : link last i next i = none := by
        refine eq_none_iff_forall_ne_some.mpr fun j hj => ?_
        obtain ⟨d', hd', hid', -⟩ := hnext i j hj
        cases hd.symm.trans hd'
        exact hid' hid
      exact ⟨hlast hloop, fun _ _ hk => hk, [i], .last hd (by simpa using hexe) hid hend, by simp,
        by simpa using hend⟩
    · obtain ⟨j, hj, h⟩ := bind_eq_some_iff.mp h
      split_ifs at h with hzero
      have hij : Handoff descs i j := ⟨d, hd, hid, getBlParamsNodeIndex_eq_some_iff.mp hj⟩
      generalize link last i next = next at h hnext ⊢
      have hlink : ∀ k, link (some i) j next k = if k = i then some j else next k :=
        fun k => update_apply ..
      obtain ⟨hi, hkeep, l, hl, hnd, hnone⟩ := ih h fun k j' hk => by
        rw [hlink] at hk
        split_ifs at hk with hki
        · cases hk
          exact hki ▸ hij
        · exact hnext k j' hk
      have hi : next i = none := hi i rfl
      have hnot : i ∉ l := fun hmem => by simpa [hlink] using hnone i hmem
      refine ⟨hlast hloop, fun k j' hk => hkeep k j' ?_, i :: l, ?_, nodup_cons.mpr ⟨hnot, hnd⟩, ?_⟩
      · rw [hlink, if_neg fun hki => by simp [hki, hi] at hk]
        exact hk
      · exact .cons hd (by simpa using hexe) hij (hkeep i j (by simp [hlink])) hl
      · refine forall_mem_cons.mpr ⟨hi, fun k hk => ?_⟩
        have hnone := hnone k hk
        rwa [hlink, if_neg (by rintro rfl; exact hnot hk)] at hnone

/-- The loop ends on images that are linked, with enough rounds and none of them linked yet. -/
theorem linkLoop_of_linked {rounds : Nat} {last : Option Nat} (h : Linked descs next' i l)
    (hnd : l.Nodup) (hzero : 0 ∉ l.tail) (hrnd : l.length ≤ rounds)
    (hlast : last.any (fun k => !decide (next k = none)) = false)
    (hfree : ∀ k ∈ l, link last i next k = none) : linkLoop descs rounds i last next ≠ none := by
  obtain ⟨rounds, rfl⟩ := Nat.exists_eq_add_of_le' hrnd
  induction h generalizing rounds last next with
  | last hd hexe hid => simp [linkLoop, hd, hexe, hid, hlast]
  | @cons i j d l hd hexe hij _ hl ih =>
    obtain ⟨d', hd', hid, hj⟩ := hij
    cases hd.symm.trans hd'
    obtain ⟨hnot, hnd⟩ := nodup_cons.mp hnd
    have hne : j ≠ 0 := fun h0 => hzero (h0 ▸ hl.mem)
    have hrest := @ih (link last i next) (some i) hnd (fun h0 => hzero (mem_of_mem_tail h0))
      (by simp [hfree]) (fun k hk => ?_) rounds (by omega)
    · simpa [linkLoop, hd, hexe, hid, hlast, getBlParamsNodeIndex_eq_some_iff.mpr hj, hne]
        using hrest
    · exact (update_of_ne (by rintro rfl; exact hnot hk) ..).trans (hfree k (mem_cons_of_mem i hk))

theorem Linked.of_handoff (h : Linked descs next i l) (hij : Handoff descs i j) :
    ∃ l', l = i :: l' ∧ Linked descs next j l' := by
  obtain ⟨d, hd, hid, hj⟩ := hij
  cases h with
  | last hd' _ hid' =>
    cases hd.symm.trans hd'
    exact absurd hid' hid
  | cons _ _ hij' _ hl =>
    obtain ⟨d', hd', -, hj'⟩ := hij'
    cases hd.symm.trans hd'
    obtain rfl := hj.unique hj'
    exact ⟨_, rfl, hl⟩

theorem Linked.of_reach (h : Linked descs next i l) (hij : ReflTransGen (Handoff descs) i j) :
    ∃ l', l' <:+ l ∧ Linked descs next j l' := by
  induction hij with
  | refl => exact ⟨l, suffix_rfl, h⟩
  | tail _ hij ih =>
    obtain ⟨l₁, hsuf, hl₁⟩ := ih
    obtain ⟨l', rfl, hl'⟩ := hl₁.of_handoff hij
    exact ⟨l', (suffix_cons _ l').trans hsuf, hl'⟩

theorem Linked.length_le (h : Linked descs next i l) (hnd : l.Nodup) :
    l.length ≤ descs.length := by
  have hlt : ∀ k ∈ l, k < descs.length := by
    clear hnd
    induction h with
    | last hd => simpa using (List.getElem?_eq_some_iff.mp hd).1
    | cons hd _ _ _ _ ih => exact forall_mem_cons.mpr ⟨(List.getElem?_eq_some_iff.mp hd).1, ih⟩
  have hsub := hnd.subperm fun k hk => mem_range.mpr (hlt k hk)
  simpa using hsub.length_le

theorem getNextBlParams_eq_some (h : getNextBlParams descs = some (some (i, next))) :
    IsHead descs i ∧ ∃ l, Linked descs next i l ∧ l.Nodup := by
  unfold getNextBlParams at h
  split_ifs at h
  · cases h
  · obtain ⟨head, hhead, h⟩ := bind_eq_some_iff.mp h
    obtain ⟨next', hloop, h⟩ := bind_eq_some_iff.mp h
    cases h
    obtain ⟨-, -, l, hl, hnd, -⟩ := linkLoop_eq_some hloop fun k j hk => by cases hk
    exact ⟨findHead_eq_some_iff.mp hhead, l, hl, hnd⟩

theorem getNextBlParams_of_linked (hhead : IsHead descs i) (hl : Linked descs next i l)
    (hnd : l.Nodup) (hzero : 0 ∉ l.tail) : getNextBlParams descs ≠ none := by
  have hloop := linkLoop_of_linked hl hnd hzero (hl.length_le hnd) (rfl : none.any _ = _)
    fun _ _ => rfl
  obtain ⟨next', hnext⟩ := ne_none_iff_exists'.mp hloop
  unfold getNextBlParams
  split_ifs
  · nofun
  · simp [findHead_eq_some_iff.mpr hhead, hnext]

/-- **The list of the images.** It starts with the first image that is marked as executable and
first, goes from each image to its hand-off image up to one without, with no repetition, and all
images in it are executable. If the images come to a cycle or to a missing identifier, an assertion
fails; and none does if they can be linked, and only the first one has the first descriptor. -/
theorem next_bl_params_list (descs : List MemParams) :
    (∀ head next, getNextBlParams descs = some (some (head, next)) →
      IsHead descs head ∧ ∃ l, Linked descs next head l ∧ l.Nodup) ∧
    (∀ head i, IsHead descs head → ReflTransGen (Handoff descs) head i →
      (TransGen (Handoff descs) i i ∨ ∃ d, descs[i]? = some d ∧
        d.nextHandoffImageId ≠ invalidImageId ∧ ∀ d' ∈ descs, d'.imageId ≠ d.nextHandoffImageId) →
      getNextBlParams descs = none) ∧
    ∀ head next l, IsHead descs head → Linked descs next head l → l.Nodup → 0 ∉ l.tail →
      getNextBlParams descs ≠ none := by
  refine ⟨fun _ _ => getNextBlParams_eq_some, fun head i hhead hreach hbad =>
    eq_none_iff_forall_ne_some.mpr fun r hr => ?_, fun _ _ _ => getNextBlParams_of_linked⟩
  cases r with
  | none =>
    unfold getNextBlParams at hr
    split_ifs at hr with hlen
    · obtain ⟨⟨d, hd, -⟩, -⟩ := hhead
      simp [length_eq_zero_iff.mp hlen] at hd
    · simp [bind_eq_some_iff] at hr
  | some r =>
    obtain ⟨hhead', l, hl, hnd⟩ := getNextBlParams_eq_some hr
    obtain rfl := hhead.unique hhead'
    obtain ⟨l', hsuf, hl'⟩ := hl.of_reach hreach
    have hnd' := hnd.sublist hsuf.sublist
    rcases hbad with hcyc | ⟨d, hd, hid, hnone⟩
    · obtain ⟨j, hij, hji⟩ := TransGen.head'_iff.mp hcyc
      obtain ⟨l₁, rfl, hl₁⟩ := hl'.of_handoff hij
      obtain ⟨l₂, hsuf₂, hl₂⟩ := hl₁.of_reach hji
      exact (nodup_cons.mp hnd').1 (hsuf₂.subset hl₂.mem)
    · cases hl' with
      | last hd' _ hid' =>
        cases hd.symm.trans hd'
        exact hid hid'
      | cons _ _ hij =>
        obtain ⟨d', hd', -, ⟨e, he, hid'⟩, -⟩ := hij
        cases hd.symm.trans hd'
        exact hnone e (mem_of_getElem? he) hid'

/-- BL31, which is first, BL33 and BL32, which comes between them. -/
theorem next_bl_params_list_three : ∃ next,
    getNextBlParams [⟨3, 0x18, 4⟩, ⟨5, 8, invalidImageId⟩, ⟨4, 8, 5⟩] = some (some (0, next)) ∧
    ∃ l, Linked [⟨3, 0x18, 4⟩, ⟨5, 8, invalidImageId⟩, ⟨4, 8, 5⟩] next 0 l ∧ l.Nodup :=
  ⟨_, rfl, ((next_bl_params_list _).1 0 _ rfl).2⟩

end TrustedFirmware.DescImageLoad
