import Mathlib.Data.List.Basic

/-!
# Runtime services (`runtime_svc.c`)

Initialisation fills a table with the place of the descriptor for each owning entity and call type,
and an SMC is handled by the descriptor that it finds there: the last one for the identifier. A
descriptor without a handler is accepted if it has an initialisation routine.
-/

namespace TrustedFirmware.Bl31.RuntimeSvc

variable {H : Type}

/-- `rt_svc_desc_t`, with what the initialisation routine returns, if there is one. -/
structure RtSvcDesc (H : Type) where
  startOen : UInt8
  endOen : UInt8
  callType : UInt8
  init : Option Int
  handle : Option H

def maxRtSvcs : Nat := 128

def oenLimit : Nat := 64

/-- `GET_SMC_OEN` -/
def getSmcOen (fid : BitVec 32) : Nat := (fid.toNat >>> 24) &&& 0x3f

/-- `GET_SMC_TYPE` -/
def getSmcType (fid : BitVec 32) : Nat := (fid.toNat >>> 31) &&& 1

/-- `get_unique_oen` -/
def getUniqueOen (oen callType : Nat) : Nat := ((callType &&& 1) <<< 6) ||| (oen &&& 0x3f)

/-- `get_unique_oen_from_smc_fid` -/
def getUniqueOenFromSmcFid (fid : BitVec 32) : Nat := getUniqueOen (getSmcOen fid) (getSmcType fid)

/-- `validate_rt_svc_desc` -/
def validateRtSvcDesc (d : RtSvcDesc H) : Bool :=
  d.startOen ≤ d.endOen ∧ d.endOen.toNat < oenLimit ∧ (d.callType = 1 ∨ d.callType = 0) ∧
    (d.init.isSome ∨ d.handle.isSome)

/-- The loop over the owning entities of a descriptor, with the number of those left. -/
def fillIndices (index : Nat) : Nat → Nat → (Nat → Nat) → Nat → Nat
  | 0, _, indices => indices
  | left + 1, startIdx, indices =>
    fillIndices index left (startIdx + 1) (Function.update indices startIdx index)

/-- The loop over the descriptors; `none` is a panic. -/
def initLoop : List (RtSvcDesc H) → Nat → (Nat → Nat) → Option (Nat → Nat)
  | [], _, indices => some indices
  | d :: ds, index, indices =>
    if !validateRtSvcDesc d then none
    else if d.init.any (· ≠ 0) then initLoop ds (index + 1) indices
    else
      let startIdx := getUniqueOen d.startOen.toNat d.callType.toNat
      let endIdx := getUniqueOen d.endOen.toNat d.callType.toNat
      initLoop ds (index + 1) (fillIndices index (endIdx + 1 - startIdx) startIdx indices)

/-- `runtime_svc_init`, with `rt_svc_descs_indices`. -/
def runtimeSvcInit (descs : List (RtSvcDesc H)) : Option (Nat → Nat) :=
  if descs.length = 0 then some fun _ => 0 else initLoop descs 0 fun _ => 0xff

/-- What is done with an SMC; `outside` is an access outside the array. -/
inductive Outcome (H : Type)
  | unk
  | call (handle : Option H)
  | outside

/-- `handle_runtime_svc` -/
def handleRuntimeSvc (descs : List (RtSvcDesc H)) (indices : Nat → Nat) (fid : BitVec 32) :
    Outcome H :=
  let index := indices (getUniqueOenFromSmcFid fid)
  if descs.length ≤ index then .unk
  else
    match descs[index]? with
    | none => .outside
    | some d => .call d.handle

/-! ### The descriptor for an identifier -/

/-- The service of the descriptor has been initialised and is for the identifier. -/
def RtSvcDesc.serves (d : RtSvcDesc H) (fid : BitVec 32) : Bool :=
  d.init.all (· = 0) ∧ d.callType.toNat = getSmcType fid ∧ d.startOen.toNat ≤ getSmcOen fid ∧
    getSmcOen fid ≤ d.endOen.toNat

/-- The last descriptor for the identifier, at its place. -/
structure IsLast (descs : List (RtSvcDesc H)) (fid : BitVec 32) (i : Nat) (d : RtSvcDesc H) :
    Prop where
  at_place : descs[i]? = some d
  serves : d.serves fid = true
  last : ∀ d' ∈ descs.drop (i + 1), d'.serves fid = false

variable {descs ds : List (RtSvcDesc H)} {d : RtSvcDesc H} {fid : BitVec 32}
  {indices indices' : Nat → Nat} {index i : Nat}

theorem isLast_succ (h : IsLast ds fid i d) (d' : RtSvcDesc H) : IsLast (d' :: ds) fid (i + 1) d :=
  ⟨h.at_place, h.serves, h.last⟩

theorem exists_isLast (h : ∃ d ∈ descs, d.serves fid = true) : ∃ i d, IsLast descs fid i d := by
  induction descs with
  | nil => simp at h
  | cons d ds ih =>
    by_cases hds : ∃ d ∈ ds, d.serves fid = true
    · obtain ⟨i, d', hlast⟩ := ih hds
      exact ⟨i + 1, d', isLast_succ hlast d⟩
    · refine ⟨0, d, rfl, ?_, by simpa using hds⟩
      obtain ⟨d', hmem, hser⟩ := h
      rcases List.mem_cons.mp hmem with rfl | hmem
      · exact hser
      · exact absurd ⟨d', hmem, hser⟩ hds

/-! ### The table -/

theorem getUniqueOen_eq : ∀ c < 2, ∀ o < 64, getUniqueOen o c = 64 * c + o := by
  decide

theorem fillIndices_apply {left startIdx idx : Nat} : fillIndices index left startIdx indices idx =
      if startIdx ≤ idx ∧ idx < startIdx + left then index else indices idx := by
  induction left generalizing startIdx indices with
  | zero => rw [fillIndices, if_neg (by omega)]
  | succ left ih =>
    rw [fillIndices, ih, Function.update_apply]
    split_ifs <;> first | rfl | omega

/-- The entries that a descriptor fills are those of the identifiers that it is for. -/
theorem fill_apply (hval : validateRtSvcDesc d = true) (hinit : ¬ d.init.any (· ≠ 0)) :
    let startIdx := getUniqueOen d.startOen.toNat d.callType.toNat
    let endIdx := getUniqueOen d.endOen.toNat d.callType.toNat
    fillIndices index (endIdx + 1 - startIdx) startIdx indices (getUniqueOenFromSmcFid fid) =
      if d.serves fid then index else indices (getUniqueOenFromSmcFid fid) := by
  obtain ⟨hle, hlim, htype, -⟩ := of_decide_eq_true hval
  have hc : d.callType.toNat < 2 := by rcases htype with hc | hc <;> rw [hc] <;> decide
  have hle : d.startOen.toNat ≤ d.endOen.toNat := hle
  have hoen : getSmcOen fid < 64 := Nat.and_lt_two_pow _ (by decide : 0x3f < 2 ^ 6)
  have htype' : getSmcType fid < 2 := Nat.and_lt_two_pow _ (by decide : 1 < 2 ^ 1)
  rw [oenLimit] at hlim
  have hall : d.init.all (· = 0) = true := by
    cases hi : d.init <;> simp_all
  dsimp only
  rw [fillIndices_apply, getUniqueOenFromSmcFid, getUniqueOen_eq _ hc _ (by omega),
    getUniqueOen_eq _ hc _ hlim, getUniqueOen_eq _ htype' _ hoen]
  refine if_congr ?_ rfl rfl
  rw [RtSvcDesc.serves, decide_eq_true_iff, and_iff_right hall]
  omega

/-- The entry for an identifier after the loop. -/
theorem initLoop_apply (h : initLoop ds index indices = some indices') :
    (∀ i d, IsLast ds fid i d → indices' (getUniqueOenFromSmcFid fid) = index + i) ∧
    ((∀ d ∈ ds, d.serves fid = false) →
      indices' (getUniqueOenFromSmcFid fid) = indices (getUniqueOenFromSmcFid fid)) := by
  induction ds generalizing index indices with
  | nil =>
    cases h
    exact ⟨fun i d hlast => (nomatch hlast.at_place), fun _ => rfl⟩
  | cons d ds ih =>
    obtain ⟨indices₁, hloop, hen⟩ : ∃ indices₁, initLoop ds (index + 1) indices₁ =
        some indices' ∧ indices₁ (getUniqueOenFromSmcFid fid) =
          if d.serves fid then index else indices (getUniqueOenFromSmcFid fid) := by
      rw [initLoop] at h
      split_ifs at h with hval hinit
      · refine ⟨indices, h, (if_neg fun hser => ?_).symm⟩
        obtain ⟨hall, -⟩ := of_decide_eq_true hser
        cases hi : d.init <;> simp_all
      · exact ⟨_, h, fill_apply (by simpa using hval) hinit⟩
    obtain ⟨hlast, hnone⟩ := ih hloop
    refine ⟨fun i d' h' => ?_, fun hall => ?_⟩
    · cases i with
      | zero =>
        cases h'.at_place
        rw [hnone h'.last, hen, if_pos h'.serves]
        rfl
      | succ i =>
        rw [hlast i d' ⟨h'.at_place, h'.serves, h'.last⟩]
        omega
    · obtain ⟨hd, hds⟩ := List.forall_mem_cons.mp hall
      rw [hnone hds, hen, if_neg (by simp [hd])]

/-- What has to be done with an SMC. -/
structure HandledRight (descs : List (RtSvcDesc H)) (fid : BitVec 32) (out : Outcome H) : Prop where
  last : ∀ i d, IsLast descs fid i d → ∃ handle, d.handle = some handle ∧ out = .call handle
  unk : (∀ d ∈ descs, d.serves fid = false) → out = .unk
  safe : out ≠ .call none ∧ out ≠ .outside

/-- **SMCs are handled right** if and only if the last descriptor for the identifier, if there is
one, has a handler. -/
theorem handle_runtime_svc_right_iff (hlen : descs.length < maxRtSvcs)
    (hinit : runtimeSvcInit descs = some indices) (fid : BitVec 32) :
    HandledRight descs fid (handleRuntimeSvc descs indices fid) ↔
      ∀ i d, IsLast descs fid i d → d.handle.isSome := by
  have hcall : ∀ i d, IsLast descs fid i d →
      handleRuntimeSvc descs indices fid = .call d.handle := by
    intro i d hlast
    obtain ⟨hi, hget⟩ := List.getElem?_eq_some_iff.mp hlast.at_place
    rw [runtimeSvcInit, if_neg (by omega)] at hinit
    have hidx := (initLoop_apply hinit).1 i d hlast
    simp [handleRuntimeSvc, hidx, hget, hi]
  have hunk : (∀ d ∈ descs, d.serves fid = false) → handleRuntimeSvc descs indices fid = .unk := by
    intro hnone
    refine if_pos ?_
    rw [runtimeSvcInit] at hinit
    split_ifs at hinit with hzero
    · exact hzero ▸ Nat.zero_le _
    · rw [(initLoop_apply hinit).2 hnone]
      exact Nat.le_trans (Nat.le_of_lt hlen) (by decide)
  constructor
  · intro hrt i d hlast
    obtain ⟨handle, hhd, -⟩ := hrt.last i d hlast
    rw [hhd]
    rfl
  · intro hsome
    have hrt : ∀ i d, IsLast descs fid i d → ∃ handle, d.handle = some handle ∧
        handleRuntimeSvc descs indices fid = .call handle := by
      intro i d hlast
      obtain ⟨handle, hhd⟩ := Option.isSome_iff_exists.mp (hsome i d hlast)
      exact ⟨handle, hhd, by rw [hcall i d hlast, hhd]⟩
    refine ⟨hrt, hunk, ?_⟩
    by_cases hser : ∃ d ∈ descs, d.serves fid = true
    · obtain ⟨i, d, hlast⟩ := exists_isLast hser
      obtain ⟨handle, -, hout⟩ := hrt i d hlast
      simp [hout]
    · simp [hunk (by simpa using hser)]

/-- Fast calls of the Arm architecture service. -/
def archSvc (handle : Option Unit) : RtSvcDesc Unit := ⟨0, 0, 1, some 0, handle⟩

/-- Descriptors for fast calls whose owning entities overlap; the last one fails. -/
def overlapping : List (RtSvcDesc Nat) :=
  [⟨0, 3, 1, some 0, some 10⟩, ⟨1, 2, 1, none, some 11⟩, ⟨2, 2, 1, some 1, some 12⟩]

theorem handle_runtime_svc_right_overlapping :
    ∃ indices, runtimeSvcInit overlapping = some indices ∧
      handleRuntimeSvc overlapping indices 0x82000000 = .call (some 11) ∧
      HandledRight overlapping 0x82000000 (handleRuntimeSvc overlapping indices 0x82000000) := by
  have hall : ∀ d ∈ overlapping, d.handle.isSome := by decide
  exact ⟨_, rfl, rfl, (handle_runtime_svc_right_iff (by decide) rfl _).mpr fun i d hlast =>
    hall d (List.mem_of_getElem? hlast.at_place)⟩

/-- A descriptor without a handler is called. -/
theorem null_handler_called : ∃ indices, runtimeSvcInit [archSvc none] = some indices ∧
    handleRuntimeSvc [archSvc none] indices 0x80000000 = .call none :=
  ⟨_, rfl, rfl⟩

end TrustedFirmware.Bl31.RuntimeSvc
