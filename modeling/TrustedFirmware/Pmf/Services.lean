import Mathlib.Data.List.Basic
import Mathlib.Data.List.GetD
import TrustedFirmware.Lib.BinarySearch

/-!
# Services of the performance measurement framework

In `pmf_main.c`, `pmf_setup` keeps the places of the descriptors that initialise and sorts them by
service, and `get_service` finds one by binary search. The sort compares the descriptors at the
positions it sorts and not those at the places it moves, and the search may read the entry after
the last one, which is 0. So which services are found depends on where the services fall from one
descriptor to the next (`entry`), and on what the search meets on its way (`Met`).
-/

namespace TrustedFirmware.Pmf

open Lib List Function Option

/-- `pmf_svc_desc_t`, with what the initialisation routine returns if there is one. -/
structure PmfSvcDesc where
  init : Option Int
  svcConfig : BitVec 32

def pmfSvcDescsMax : Nat := 10

/-- The bits of `PMF_SVC_ID_MASK` -/
def svcId (config : BitVec 32) : Nat := (config &&& 0xFC00).toNat

/-- The bits of `PMF_TID_MASK` -/
def tidField (config : BitVec 32) : Nat := (config &&& 0xFF).toNat

/-- `pmf_svc_descs`, `pmf_svc_descs_indices` and `pmf_num_services` -/
structure PmfState where
  descs : List PmfSvcDesc
  indices : Nat → Nat
  numServices : Nat

def svcIdAt (descs : List PmfSvcDesc) (i : Nat) : Nat :=
  (descs[i]?.map (svcId ·.svcConfig)).getD 0

/-- The descriptor has no initialisation routine, or one that succeeds. -/
def initialised (descs : List PmfSvcDesc) (ii : Nat) : Bool :=
  descs[ii]?.any (·.init.all (· = 0))

def places (descs : List PmfSvcDesc) : List Nat := (range descs.length).filter (initialised descs)

/-- The first loop of `pmf_setup`. -/
def registered (descs : List PmfSvcDesc) : PmfState :=
  ⟨descs, ((places descs).getD · 0), (places descs).length⟩

def sortStep (descs : List PmfSvcDesc) (indices : Nat → Nat) (jj : Nat) : Nat → Nat :=
  if svcIdAt descs (jj + 1) < svcIdAt descs jj then
    update (update indices jj (indices (jj + 1))) (jj + 1) (indices jj)
  else indices

def sortPass (s : PmfState) (ii : Nat) : PmfState :=
  { s with indices := (range (s.numServices - ii)).foldl (sortStep s.descs) s.indices }

/-- `pmf_setup`, which asserts that there is room for one service more. -/
def pmfSetup (descs : List PmfSvcDesc) : Option PmfState :=
  if descs.length < pmfSvcDescsMax then
    some ((range' 1 ((registered descs).numServices - 1)).foldl sortPass (registered descs))
  else none

/-- The service of an entry of the index array. -/
def PmfState.key (s : PmfState) (mid : Nat) : Nat := svcIdAt s.descs (s.indices mid)

/-- `get_service`, with the place of the descriptor. -/
def getService (s : PmfState) (tid : BitVec 32) : Option Nat :=
  if s.numServices = 0 then none
  else do
    let mid ← (search s.key (svcId tid) (s.numServices + 1) 0 (s.numServices + 1)).1
    let desc ← s.descs[s.indices mid]?
    if tidField tid < tidField desc.svcConfig then some (s.indices mid) else none

/-- `pmf_get_timestamp_smc`: the descriptor whose `get_ts` is called, or `-EINVAL`. -/
def pmfGetTimestampSmc (s : PmfState) (tid : BitVec 32) (corePos : Int) : Except Int Nat :=
  match getService s tid with
  | some i => if corePos < 0 then .error (-22) else .ok i
  | none => .error (-22)

/-- The descriptor has the time-stamp. -/
def Has (descs : List PmfSvcDesc) (tid : BitVec 32) (i : Nat) : Prop :=
  ∃ d, descs[i]? = some d ∧ svcId d.svcConfig = svcId tid ∧ tidField tid < tidField d.svcConfig

/-- It is also initialised. -/
def Serves (descs : List PmfSvcDesc) (tid : BitVec 32) (i : Nat) : Prop :=
  initialised descs i = true ∧ Has descs tid i

/-! ### The sort

Its swaps depend on where the services of the descriptors fall, and on nothing else. -/

/-- The first of the descriptors from which the services fall down to that of `k`. -/
def runStart (descs : List PmfSvcDesc) : Nat → Nat
  | 0 => 0
  | k + 1 => if svcIdAt descs (k + 1) < svcIdAt descs k then runStart descs k else k + 1

/-- The last one, up to `last`, to which they fall from it. -/
def runStop (descs : List PmfSvcDesc) (k : Nat) : (last : Nat) → Nat
  | 0 => 0
  | last + 1 =>
    if runStart descs (last + 1) = runStart descs k then last + 1 else runStop descs k last

/-- Where the entry `k` was before the sort. Those of descriptors that fall have been turned around,
and have moved on by one in each pass that went past the last of them. -/
def origin (descs : List PmfSvcDesc) (last k : Nat) : Nat :=
  if k ≤ last then
    runStart descs k + (last - k) % (runStop descs k last + 1 - runStart descs k)
  else k

/-- The place in the entry `k` after the sort. -/
def entry (descs : List PmfSvcDesc) (k : Nat) : Nat :=
  (places descs).getD (origin descs ((places descs).length - 1) k) 0

/-- What `pmf_setup` leaves. -/
def sorted (descs : List PmfSvcDesc) : PmfState := ⟨descs, entry descs, (places descs).length⟩

/-- Where the entry `k` was before one pass. -/
def moved (descs : List PmfSvcDesc) (m k : Nat) : Nat :=
  if k < m ∧ svcIdAt descs (k + 1) < svcIdAt descs k then k + 1
  else if k ≤ m then runStart descs k else k

section

variable {descs : List PmfSvcDesc} {i j k last : Nat} {tid : BitVec 32}

theorem runStart_le (k : Nat) : runStart descs k ≤ k := by
  induction k with
  | zero => exact le_rfl
  | succ k ih =>
    unfold runStart
    split_ifs
    · omega
    · exact le_rfl

theorem runStart_succ_eq_iff :
    runStart descs (k + 1) = runStart descs k ↔ svcIdAt descs (k + 1) < svcIdAt descs k := by
  have hle := @runStart_le descs k
  conv_lhs => rw [runStart]
  split_ifs with hfall
  · exact iff_of_true rfl hfall
  · exact iff_of_false (by omega) hfall

/-- What is between the first descriptor and another one falls to that one. -/
theorem runStart_between (hi : runStart descs j ≤ i) (hij : i ≤ j) :
    runStart descs i = runStart descs j := by
  induction j with
  | zero => rw [Nat.le_zero.mp hij]
  | succ j ih =>
    rcases Nat.lt_or_eq_of_le hij with hlt | rfl
    · rw [runStart] at hi ⊢
      split_ifs at hi ⊢
      · exact ih hi (by omega)
      · omega
    · rfl

theorem runStop_spec (hk : k ≤ last) :
    k ≤ runStop descs k last ∧ runStop descs k last ≤ last ∧
      runStart descs (runStop descs k last) = runStart descs k ∧
      (runStop descs k last < last →
        runStart descs (runStop descs k last + 1) ≠ runStart descs k) := by
  induction last with
  | zero =>
    obtain rfl := Nat.le_zero.mp hk
    exact ⟨le_rfl, le_rfl, rfl, nofun⟩
  | succ last ih =>
    unfold runStop
    split_ifs with hrun
    · exact ⟨hk, le_rfl, hrun, by omega⟩
    · have hle : k ≤ last := by
        by_contra hgt
        obtain rfl : k = last + 1 := by omega
        exact hrun rfl
      obtain ⟨hge, hstop, hst, hnext⟩ := ih hle
      refine ⟨hge, by omega, hst, fun _ => ?_⟩
      rcases Nat.lt_or_eq_of_le hstop with hlt | heq
      · exact hnext hlt
      · rwa [heq]

/-- One pass. -/
theorem foldl_sortStep (f : Nat → Nat) (m : Nat) :
    (range m).foldl (sortStep descs) f = f ∘ moved descs m := by
  induction m with
  | zero =>
    funext k
    cases k <;> simp [moved, runStart]
  | succ m ih =>
    rw [range_succ, foldl_append, ih, foldl_cons, foldl_nil, sortStep]
    funext k
    have hnext : runStart descs (m + 1) =
      if svcIdAt descs (m + 1) < svcIdAt descs m then runStart descs m else m + 1 := rfl
    split_ifs at hnext ⊢ with hfall <;> simp only [comp_apply, update_apply] <;> grind [moved]

/-- An entry of descriptors that fall comes from the next one of them, -/
theorem moved_of_lt (hi : runStart descs j ≤ i) (hij : i < j) (hj : j ≤ last) :
    moved descs last i = i + 1 := by
  refine if_pos ⟨hij.trans_le hj, ?_⟩
  rw [← runStart_succ_eq_iff, runStart_between (Nat.le_succ_of_le hi) hij,
    runStart_between hi hij.le]

/-- and that of the last one from the first. -/
theorem moved_of_ne (hi : i ≤ last) (hends : runStart descs (i + 1) ≠ runStart descs i) :
    moved descs last i = runStart descs i := by
  rw [moved, if_neg fun h => hends (runStart_succ_eq_iff.mpr h.2), if_pos hi]

theorem origin_succ (last k : Nat) :
    origin descs (last + 1) k = moved descs (last + 1) (origin descs last k) := by
  rcases Nat.lt_trichotomy k (last + 1) with hlt | rfl | hgt
  · have hk : k ≤ last := Nat.le_of_lt_succ hlt
    obtain ⟨hge, hle, hst, hnext⟩ := @runStop_spec descs k last hk
    have hfirst := @runStart_le descs k
    rw [origin, origin, if_pos hk, if_pos hlt.le, runStop]
    generalize runStop descs k last = stop at hge hle hst hnext ⊢
    generalize runStart descs k = first at hst hnext hfirst ⊢
    split_ifs with hin
    · obtain rfl : stop = last := by
        by_contra hne
        refine hnext (by omega) ((runStart_between ?_ ?_).trans hin) <;> omega
      rw [Nat.mod_eq_of_lt (by omega), Nat.mod_eq_of_lt (by omega),
        moved_of_lt (j := stop + 1) (by omega) (by omega) le_rfl]
      omega
    · have hlt := Nat.mod_lt (last - k) (show 0 < stop + 1 - first by omega)
      rw [show last + 1 - k = last - k + 1 by omega, ← Nat.mod_add_mod]
      generalize (last - k) % (stop + 1 - first) = r at hlt ⊢
      rcases Nat.lt_or_eq_of_le (Nat.succ_le_of_lt hlt) with hr | hr
      · rw [Nat.mod_eq_of_lt hr, moved_of_lt (j := stop) (by omega) (by omega) (by omega)]
        omega
      · obtain rfl : stop = first + r := by omega
        have hends : runStart descs (first + r + 1) ≠ first := by
          rcases Nat.lt_or_eq_of_le hle with hlt | heq
          · exact hnext hlt
          · rwa [heq]
        rw [← hr, Nat.mod_self, moved_of_ne (by omega) (by rwa [hst]), hst]
        rfl
  · simp [origin, moved, Nat.not_succ_le_self]
  · simp [origin, moved, hgt.not_ge, hgt.not_gt, (Nat.lt_of_succ_lt hgt).not_ge]

/-- All passes. -/
theorem foldl_sortPass {s : PmfState} {ii : Nat} (hlast : last = s.numServices - ii) :
    (range' ii last).foldl sortPass s = { s with indices := s.indices ∘ origin s.descs last } := by
  induction last generalizing s ii with
  | zero =>
    refine congrArg (PmfState.mk s.descs · _) (funext fun k => ?_)
    cases k <;> simp [origin, runStart]
  | succ last ih =>
    rw [range'_succ, foldl_cons, ih (by simp only [sortPass]; omega), sortPass, ← hlast,
      foldl_sortStep]
    exact congrArg (PmfState.mk s.descs · _) (funext fun k => congrArg _ (origin_succ ..).symm)

theorem pmfSetup_eq (hroom : descs.length < pmfSvcDescsMax) :
    pmfSetup descs = some (sorted descs) :=
  (if_pos hroom).trans (congrArg some (foldl_sortPass rfl))

/-- The search gets to an entry with the descriptor. -/
def Met (descs : List PmfSvcDesc) (i : Nat) : Prop :=
  ∃ k < (places descs).length + 1, places descs ≠ [] ∧ entry descs k = i ∧
    ∀ m ∈ before k ((places descs).length + 1) 0 ((places descs).length + 1),
      if k < m then svcIdAt descs i < svcIdAt descs (entry descs m)
      else svcIdAt descs (entry descs m) < svcIdAt descs i

instance : DecidablePred (Met descs) := fun _ => inferInstanceAs (Decidable (∃ k < _, _))

theorem svcIdAt_of_has (h : Has descs tid i) : svcIdAt descs i = svcId tid := by
  obtain ⟨d, hd, hid, -⟩ := h
  simpa [svcIdAt, hd] using hid

theorem getService_eq_some_iff :
    getService (sorted descs) tid = some i ↔ Has descs tid i ∧ Met descs i := by
  unfold getService sorted
  by_cases hnil : places descs = []
  · simp [hnil, Met]
  have hlen : (places descs).length ≠ 0 := by simpa using hnil
  simp only [if_neg hlen, bind_eq_bind, bind_eq_some_iff, ite_none_right_eq_some, some.injEq,
    search_eq_some_iff_before (Nat.sub_le _ 0), PmfState.key]
  constructor
  · rintro ⟨k, ⟨-, hk, hkey, hall⟩, d, hd, htid, rfl⟩
    have hid : svcId d.svcConfig = svcId tid := by simpa [svcIdAt, hd] using hkey
    exact ⟨⟨d, hd, hid, htid⟩, k, hk, hnil, rfl, hkey ▸ hall⟩
  · rintro ⟨hhas, k, hk, -, rfl, hall⟩
    have hkey := svcIdAt_of_has hhas
    obtain ⟨d, hd, -, htid⟩ := hhas
    exact ⟨k, ⟨Nat.zero_le k, hk, hkey, hkey ▸ hall⟩, d, hd, htid, rfl⟩

end

/-- **Time-stamps.** An identifier reaches the initialised service that has it, and none if there is
none, if and only if of the services that have it the search gets to those that are initialised. -/
theorem timestamp_right_iff {descs : List PmfSvcDesc} {corePos : Int}
    (hroom : descs.length < pmfSvcDescsMax) (hpos : 0 ≤ corePos) :
    ∃ s, pmfSetup descs = some s ∧ ∀ tid,
      ((∀ i, pmfGetTimestampSmc s tid corePos = .ok i ↔ Serves descs tid i) ∧
          (pmfGetTimestampSmc s tid corePos = .error (-22) ↔ ∀ i, ¬ Serves descs tid i) ↔
        ∀ i, Has descs tid i → (initialised descs i = true ↔ Met descs i)) := by
  refine ⟨_, pmfSetup_eq hroom, fun tid => ?_⟩
  have hok (i : Nat) : pmfGetTimestampSmc (sorted descs) tid corePos = .ok i ↔
      Has descs tid i ∧ Met descs i := by
    rw [← getService_eq_some_iff, pmfGetTimestampSmc]
    cases getService _ tid <;> simp [hpos.not_gt]
  have herr : pmfGetTimestampSmc (sorted descs) tid corePos = .error (-22) ↔
      ∀ i, ¬ (Has descs tid i ∧ Met descs i) := by
    simp only [← getService_eq_some_iff, pmfGetTimestampSmc]
    cases getService _ tid <;> simp [hpos.not_gt]
  simp only [hok, herr, Serves]
  constructor
  · intro h i hi
    simpa [hi] using (h.1 i).symm
  · intro h
    have hiff (i : Nat) : Has descs tid i ∧ Met descs i ↔
        initialised descs i = true ∧ Has descs tid i := by
      rw [and_comm, and_congr_left fun hi => (h i hi).symm]
    simp [hiff]

/-- Descriptors in falling order, the second of which fails. -/
def fallingDescs : List PmfSvcDesc := [⟨none, 0x1402⟩, ⟨some 1, 0x1002⟩, ⟨none, 0xC02⟩]

theorem timestamp_right_falling : ∃ s, pmfSetup fallingDescs = some s ∧
    (∀ tid i, pmfGetTimestampSmc s tid 0 = .ok i ↔ Serves fallingDescs tid i) ∧
    pmfGetTimestampSmc s 0xC01 0 = .ok 2 := by
  obtain ⟨s, hs, h⟩ := @timestamp_right_iff fallingDescs 0 (by decide) (le_refl 0)
  have hmet : ∀ i < 3, (initialised fallingDescs i = true ↔ Met fallingDescs i) := by decide
  have hok (tid : BitVec 32) := ((h tid).mpr fun i ⟨d, hd, _⟩ =>
    hmet i (List.getElem?_eq_some_iff.mp hd).1).1
  exact ⟨s, hs, hok, (hok 0xC01 2).mpr ⟨by decide, _, rfl, by decide, by decide⟩⟩

/-- The service that failed is found through the entry after the last one. -/
theorem failed_service_called : ∃ s, pmfSetup [⟨some 1, 0x1401⟩, ⟨none, 0xC01⟩] = some s ∧
    pmfGetTimestampSmc s 0x1400 0 = .ok 0 ∧
    initialised [⟨some 1, 0x1401⟩, ⟨none, 0xC01⟩] 0 = false :=
  ⟨_, rfl, by decide, by decide⟩

end TrustedFirmware.Pmf
