import TrustedFirmware.Bl1.Fwu

/-!
# The list of loaded images

`bl1_fwu_image_check_overlaps` goes through the list of loaded images and asserts what
it relies on: that each of them is in use, and that its last byte lies above its first
one.

The list has exactly the images that are in use (`loaded_images_tracked`), apart from
the image that BL1 itself started, as long as the platform lets every image be loaded.
An image that it does not let be loaded stays on the list in state RESET, and an image
of a single byte ends where it begins (`loaded_images_broken`).
No block that is copied leaves the area of its image (`fwu_copies_contained`).
-/

namespace TrustedFirmware.Bl1

open Lib Option ImageDesc

/-- One call, by the world that is running. -/
def FwuState.step (cfg : FwuConfig) (s : FwuState) (call : FwuCall) : Option FwuState :=
  (bl1FwuSmcHandler cfg s call).map FwuOutcome.state

/-! ### The image that is executed -/

/-- The secure world runs in the image `sec_exec_image_id`, which is interrupted when
the normal world runs. Without assertions, this is all that makes a call to resume it
safe. -/
structure ExecOk (cfg : FwuConfig) (s : FwuState) : Prop where
  invalid : s.descs invalidImageId = none
  secure : s.world = .secure → ∃ d, s.descs s.secExecImageId = some d ∧ d.secure = true ∧
    d.executable = true ∧ d.state = .executed
  nonSecure : s.world = .nonSecure → ∀ d, s.descs s.secExecImageId = some d →
    d.secure = true ∧ d.executable = true ∧ (cfg.assertions = false → d.state = .interrupted)

variable {call : FwuCall} {out : FwuOutcome}

variable {cfg : FwuConfig} {s s' : FwuState} {imageId boot : U32} {d d' : ImageDesc}
  {ids ids' : List U32}

section

variable (h : ExecOk cfg s) (hd : s.descs imageId = some d)
include h hd

theorem ExecOk.ne_invalid : imageId ≠ invalidImageId := by
  intro he
  rw [he, h.invalid] at hd
  cases hd

/-- The state of an image that is neither executed nor interrupted changes. -/
theorem ExecOk.update
    (hattr : d'.secure = d.secure ∧ d'.executable = d.executable) (hexec : d.state ≠ .executed)
    (hint : cfg.assertions = false → imageId = s.secExecImageId → d.state ≠ .interrupted) :
    ExecOk cfg { s.setDesc imageId d' with loadedIds := ids } := by
  have hne := h.ne_invalid hd
  refine ⟨?_, fun hw => ?_, fun hw e he => ?_⟩
  · rw [← h.invalid]
    exact s.setDesc_of_ne d' (hne.symm)
  · obtain ⟨e, he, hsec, hexe, hst⟩ := h.secure hw
    refine ⟨e, ?_, hsec, hexe, hst⟩
    have hoth : s.secExecImageId ≠ imageId := by
      intro heq
      rw [heq, hd] at he
      cases he
      exact hexec hst
    exact (s.setDesc_of_ne d' hoth).trans he
  · by_cases heq : s.secExecImageId = imageId
    · have hold := h.nonSecure hw d (by rw [heq]; exact hd)
      obtain rfl : d' = e := by
        simpa [FwuState.setDesc, heq] using he
      refine ⟨hattr.1.trans hold.1, hattr.2.trans hold.2.1, fun ha => ?_⟩
      exact absurd (hold.2.2 ha) (hint ha heq.symm)
    · exact h.nonSecure hw e ((s.setDesc_of_ne d' heq).symm.trans he)

theorem ExecOk.enter (hsec : d.secure = true) (hexe : d.executable = true) :
    ExecOk cfg { s.setDesc imageId { d with state := .executed } with
      secExecImageId := imageId, world := .secure } := by
  refine ⟨?_, fun _ => ⟨_, s.setDesc_self imageId _, hsec, hexe, rfl⟩, fun hw => ?_⟩
  · rw [← h.invalid]
    exact s.setDesc_of_ne _ (Ne.symm (h.ne_invalid hd))
  · cases hw

end

theorem ExecOk.interrupt (h : ExecOk cfg s) (hw : s.world = .secure)
    (hd : s.descs s.secExecImageId = some d) :
    ExecOk cfg { s.setDesc s.secExecImageId { d with state := .interrupted } with
      world := .nonSecure } := by
  obtain ⟨e, he, hsec, hexe, -⟩ := h.secure hw
  cases hd.symm.trans he
  refine ⟨?_, World.noConfusion, fun _ e he => ?_⟩
  · rw [← h.invalid]
    exact s.setDesc_of_ne _ (Ne.symm (h.ne_invalid hd))
  · cases (s.setDesc_self s.secExecImageId _).symm.trans he
    exact ⟨hsec, hexe, fun _ => rfl⟩

theorem ExecOk.done (h : ExecOk cfg s) (hd : s.descs s.secExecImageId = some d) :
    ExecOk cfg { s.setDesc s.secExecImageId { d with state := .reset } with
      loadedIds := ids, secExecImageId := invalidImageId, world := .nonSecure } := by
  have hinv : (s.setDesc s.secExecImageId { d with state := .reset }).descs invalidImageId =
      none := by
    rw [← h.invalid]
    exact s.setDesc_of_ne _ (Ne.symm (h.ne_invalid hd))
  refine ⟨hinv, World.noConfusion, fun _ e he => ?_⟩
  rw [show _ = none from hinv] at he
  cases he

/-- The image that the normal world is to resume is interrupted. -/
theorem ExecOk.resumable (h : ExecOk cfg s) (hw : s.world = .nonSecure)
    (hd : s.descs s.secExecImageId = some d)
    (hasr : cfg.assertions = true → d.state = .interrupted) : d.state = .interrupted := by
  cases ha : cfg.assertions with
  | true => exact hasr ha
  | false => exact (h.nonSecure hw d hd).2.2 ha

/-- The list at most gains or loses one image. -/
structure Relisted (imageId : U32) (ids ids' : List U32) : Prop where
  once : LoadedOnce ids'
  others : ∀ id, id ≠ invalidImageId → id ≠ imageId → (id ∈ ids' ↔ id ∈ ids)

theorem Relisted.add (honce : LoadedOnce ids) (hadd : bl1FwuAddLoadedId ids imageId = some ids') :
    Relisted imageId ids ids' :=
  ⟨honce.addLoadedId hadd, fun id hid hne => by simp [mem_of_addLoadedId hadd hid, hne]⟩

theorem Relisted.remove (h : Relisted imageId ids ids') :
    Relisted imageId ids (withoutLoaded ids' imageId) := by
  refine ⟨h.once.withoutLoaded imageId, fun id hid hne => ?_⟩
  rw [mem_withoutLoaded h.once hid, h.others id hid hne]
  simp [hne]

/-- **What a move changes**: the descriptor of one image, but not of the one that BL1 started, and
on the list that image. -/
structure Changed (cfg : FwuConfig) (boot : U32) (s : FwuState) (imageId : U32) (d d' : ImageDesc)
    (s' : FwuState) : Prop where
  ne_boot : imageId ≠ boot
  was : s.descs imageId = some d
  descs : s'.descs = Function.update s.descs imageId (some d')
  area : d'.imageBase = d.imageBase ∧ d'.imageMaxSize = d.imageMaxSize
  exec : ExecOk cfg s'
  list : Relisted imageId s.loadedIds s'.loadedIds
  listed : (d.state ≠ .reset → imageId ∈ s.loadedIds) → d'.state ≠ .reset → imageId ∈ s'.loadedIds

theorem Changed.self (h : Changed cfg boot s imageId d d' s') : s'.descs imageId = some d' := by
  rw [h.descs, Function.update_self]

theorem Changed.of_ne (h : Changed cfg boot s imageId d d' s') {id : U32} (hid : id ≠ imageId) :
    s'.descs id = s.descs id := by
  rw [h.descs, Function.update_of_ne hid]

theorem ImageDesc.advance_state_ne (d : ImageDesc) (block : U32) :
    (d.advance block).state ≠ .reset := by
  unfold advance
  dsimp only
  split <;> decide

/-- The image that BL1 started is executed, and is one of the normal world. -/
theorem ne_boot_of_running
    (hrun : ∃ d, s.descs boot = some d ∧ d.state = .executed ∧ d.secure = false)
    (hd : s.descs imageId = some d) (hst : d.state ≠ .executed ∨ d.secure = true) :
    imageId ≠ boot := by
  rintro rfl
  obtain ⟨e, he, hexec, hsec⟩ := hrun
  cases hd.symm.trans he
  rcases hst with hne | hyes
  · exact hne hexec
  · cases hsec.symm.trans hyes

/-- Without assertions, the image that is interrupted is not to be reset. -/
theorem Move.changed (hm : Move cfg s call imageId d d' out)
    (h : ExecOk cfg s) (honce : LoadedOnce s.loadedIds)
    (hrun : ∃ d, s.descs boot = some d ∧ d.state = .executed ∧ d.secure = false)
    (hrs : call = .reset imageId → cfg.assertions = false → imageId ≠ s.secExecImageId) :
    Changed cfg boot s imageId d d' out.state := by
  have hsame : Relisted imageId s.loadedIds s.loadedIds := ⟨honce, fun _ _ _ => Iff.rfl⟩
  cases hm with
  | size n c hd hst hids =>
    refine ⟨ne_boot_of_running hrun hd (by simp [hst]), hd, rfl, ⟨rfl, rfl⟩,
      h.update hd ⟨rfl, rfl⟩ (by simp [hst]) (by simp [hst]), ?_,
      fun _ hne => absurd hst hne⟩
    rcases hids with rfl | ⟨hadd, -⟩
    · exact hsame
    · exact .add honce hadd
  | @block _ _ _ _ _ _ sized _ _ block hd hall hadd _ =>
    obtain ⟨hexec, hint, hattr, harea⟩ : d.state ≠ .executed ∧ d.state ≠ .interrupted ∧
        (sized.secure = d.secure ∧ sized.executable = d.executable) ∧
        sized.imageBase = d.imageBase ∧ sized.imageMaxSize = d.imageMaxSize := by
      cases hall with
      | first hst => simp [hst]
      | next hst => simp [hst]
    refine ⟨ne_boot_of_running hrun hd (.inl hexec), hd, rfl, harea,
      h.update hd hattr hexec fun _ _ => hint, .add honce hadd, fun _ _ => ?_⟩
    exact (mem_of_addLoadedId hadd (h.ne_invalid hd)).mpr (Or.inr rfl)
  | verified hd hst =>
    exact ⟨ne_boot_of_running hrun hd (by simp [hst]), hd, rfl, ⟨rfl, rfl⟩,
      h.update hd ⟨rfl, rfl⟩ (by simp [hst]) (by simp [hst]), hsame,
      fun hmem _ => hmem (by simp [hst])⟩
  | rejected hd hst =>
    exact ⟨ne_boot_of_running hrun hd (by simp [hst]), hd, rfl, ⟨rfl, rfl⟩,
      h.update hd ⟨rfl, rfl⟩ (by simp [hst]) (by simp [hst]), hsame.remove,
      fun _ hne => absurd rfl hne⟩
  | verifiedInPlace hd hst _ hadd =>
    exact ⟨ne_boot_of_running hrun hd (by simp [hst]), hd, rfl, ⟨rfl, rfl⟩,
      h.update hd ⟨rfl, rfl⟩ (by simp [hst]) (by simp [hst]), .add honce hadd,
      fun _ _ => (mem_of_addLoadedId hadd (h.ne_invalid hd)).mpr (.inr rfl)⟩
  | rejectedInPlace hd hst hadd =>
    -- The image was put on the list for the time of the check.
    exact ⟨ne_boot_of_running hrun hd (by simp [hst]), hd, rfl, ⟨rfl, rfl⟩,
      h.update hd ⟨rfl, rfl⟩ (by simp [hst]) (by simp [hst]),
      (Relisted.add honce hadd).remove, fun _ hne => absurd hst hne⟩
  | execute hd hsec hexe hst =>
    exact ⟨ne_boot_of_running hrun hd (.inr hsec), hd, rfl, ⟨rfl, rfl⟩, h.enter hd hsec hexe,
      hsame, fun hmem _ => hmem (by simp [hst])⟩
  | interrupt hd hw =>
    obtain ⟨e, he, hsec, -, hst⟩ := h.secure hw
    cases hd.symm.trans he
    exact ⟨ne_boot_of_running hrun hd (.inr hsec), hd, rfl, ⟨rfl, rfl⟩, h.interrupt hw hd,
      hsame, fun hmem _ => hmem (by simp [hst])⟩
  | resume hd hw hasr =>
    obtain ⟨hsec, hexe, -⟩ := h.nonSecure hw d hd
    have hst := h.resumable hw hd hasr
    exact ⟨ne_boot_of_running hrun hd (.inr hsec), hd, rfl, ⟨rfl, rfl⟩, h.enter hd hsec hexe,
      hsame, fun hmem _ => hmem (by simp [hst])⟩
  | done hd hw =>
    obtain ⟨e, he, hsec, -⟩ := h.secure hw
    cases hd.symm.trans he
    exact ⟨ne_boot_of_running hrun hd (.inr hsec), hd, rfl, ⟨rfl, rfl⟩, h.done hd,
      hsame.remove, fun _ hne => absurd rfl hne⟩
  | reset hd hexec =>
    exact ⟨ne_boot_of_running hrun hd (.inl hexec), hd, rfl, ⟨rfl, rfl⟩,
      h.update hd ⟨rfl, rfl⟩ hexec fun ha heq => absurd heq (hrs rfl ha), hsame.remove,
      fun _ hne => absurd rfl hne⟩

theorem FwuState.Started.execOk (h : s.Started boot) : ExecOk cfg s := by
  refine ⟨h.invalid, fun hw => ?_, fun _ d hd => ?_⟩
  · cases hw.symm.trans h.world
  · rw [h.secExec, h.invalid] at hd
    cases hd

/-! ### The images on the list -/

/-- The assertion on the end of an image that is not empty. -/
def ImageDesc.EndsAbove (d : ImageDesc) : Prop := d.imageSize ≠ 0 → d.imageEnd > d.imageBase

/-- An image of more than one byte that does not run over the end of memory. -/
def SizeFits (imageBase : U64) (imageSize : U32) : Prop :=
  imageSize ≠ 1 ∧ imageBase.toNat + imageSize.toNat ≤ 2 ^ 64
  deriving Decidable

/-- The list has the images in use, each once, and not the image that BL1 started. -/
structure ImagesOk (cfg : FwuConfig) (boot : U32) (s : FwuState) : Prop where
  exec : ExecOk cfg s
  running : ∃ d, s.descs boot = some d ∧ d.state = .executed ∧ d.secure = false
  once : LoadedOnce s.loadedIds
  loaded : ∀ id, id ≠ invalidImageId →
    (id ∈ s.loadedIds ↔ id ≠ boot ∧ ∃ d, s.descs id = some d ∧ d.state ≠ .reset)
  ends : ∀ id d, s.descs id = some d → d.state ≠ .reset → id ≠ boot → d.EndsAbove

/-- A call that keeps the list in order: the platform lets the image be loaded, an
image that gets its size has more than one byte, and, without assertions, the image
that is interrupted is not reset. -/
def OrderlyCall (cfg : FwuConfig) (s : FwuState) : FwuCall → Prop
  | .copy imageId _ _ imageSize plat => ∀ d ∈ s.descs imageId, d.state = .reset →
      plat.preImageLoad = 0 ∧ SizeFits d.imageBase imageSize
  | .auth imageId _ imageSize _ => ∀ d ∈ s.descs imageId, d.state = .reset →
      SizeFits d.imageBase imageSize
  | .reset imageId => cfg.assertions = false → imageId ≠ s.secExecImageId
  | .execute _ | .resume _ | .secImageDone | .updateDone => True

instance (cfg : FwuConfig) (s : FwuState) : (call : FwuCall) → Decidable (OrderlyCall cfg s call)
  | .copy _ _ _ _ _ => inferInstanceAs (Decidable (∀ d ∈ _, _))
  | .auth _ _ _ _ => inferInstanceAs (Decidable (∀ d ∈ _, _))
  | .reset _ => inferInstanceAs (Decidable (_ → _))
  | .execute _ | .resume _ | .secImageDone | .updateDone => inferInstanceAs (Decidable True)

theorem SizeFits.endsAbove (h : SizeFits d.imageBase d.imageSize) : d.EndsAbove := by
  intro h0
  obtain ⟨h1, hle⟩ := h
  have hne0 : d.imageSize.toNat ≠ 0 := fun h => h0 (BitVec.eq_of_toNat_eq h)
  have hne1 : d.imageSize.toNat ≠ 1 := fun h => h1 (BitVec.eq_of_toNat_eq h)
  have hend : d.imageEnd.toNat = d.imageBase.toNat + d.imageSize.toNat - 1 := by
    unfold imageEnd
    bv_omega
  show d.imageBase.toNat < d.imageEnd.toNat
  omega

section

variable (h : ImagesOk cfg boot s) (hm : Move cfg s call imageId d d' out)
  (hcall : OrderlyCall cfg s call)
include h hm hcall

omit hm hcall in
/-- **One descriptor changes**, and the list with it. -/
theorem ImagesOk.update (hc : Changed cfg boot s imageId d d' s')
    (hnot : d'.state = .reset → imageId ∉ s'.loadedIds)
    (hends : d'.state ≠ .reset → d'.EndsAbove) : ImagesOk cfg boot s' := by
  have hmem : d.state ≠ .reset → imageId ∈ s.loadedIds := fun hst =>
    (h.loaded imageId (h.exec.ne_invalid hc.was)).mpr ⟨hc.ne_boot, d, hc.was, hst⟩
  refine ⟨hc.exec, ?_, hc.list.once, fun id hid => ?_, fun id e he => ?_⟩
  · rw [hc.of_ne (hc.ne_boot.symm)]
    exact h.running
  · obtain rfl | heq := eq_or_ne id imageId
    · rw [hc.self]
      by_cases hst : d'.state = .reset
      · simp [hnot hst, hst]
      · simp [hc.listed hmem hst, hst, hc.ne_boot]
    · rw [hc.list.others id hid heq, hc.of_ne heq]
      exact h.loaded id hid
  · obtain rfl | heq := eq_or_ne id imageId
    · cases hc.self.symm.trans he
      exact fun hst _ => hends hst
    · rw [hc.of_ne heq] at he
      exact h.ends id e he

/-- An image that goes out of use, or stays out of it, is not on the list. -/
theorem ImagesOk.not_mem_move (hstate' : d'.state = .reset) : imageId ∉ out.state.loadedIds := by
  have hrem : ∀ {ids} {d}, LoadedOnce ids → s.descs imageId = some d →
      imageId ∉ withoutLoaded ids imageId := fun hone hd hmem =>
    ((mem_withoutLoaded hone (h.exec.ne_invalid hd)).mp hmem).2 rfl
  cases hm with
  | size n c hd hst hids =>
    rcases hids with rfl | ⟨-, hpre⟩
    · intro hmem
      obtain ⟨-, e, he, hused⟩ := (h.loaded imageId (h.exec.ne_invalid hd)).mp hmem
      cases hd.symm.trans he
      exact hused hst
    · exact absurd (hcall d hd hst).1 hpre
  | block block => exact absurd hstate' (advance_state_ne _ block)
  | rejected hd => exact hrem h.once hd
  | rejectedInPlace hd _ hadd => exact hrem (h.once.addLoadedId hadd) hd
  | done hd | reset hd => exact hrem h.once hd
  | _ => cases hstate'

/-- An image in use stays as large as it is, or gets its size. -/
theorem ImagesOk.endsAbove_move (hc : Changed cfg boot s imageId d d' out.state)
    (hstate' : d'.state ≠ .reset) : d'.EndsAbove := by
  have hold := h.ends imageId d hc.was
  have hkeep : d.state ≠ .reset → d'.imageSize = d.imageSize → d'.EndsAbove := by
    intro hst hsize
    unfold ImageDesc.EndsAbove imageEnd at hold ⊢
    rw [hc.area.1, hsize]
    exact hold hst hc.ne_boot
  cases hm with
  | size n c hd hst => exact absurd hst hstate'
  | block block hd hall =>
    cases hall with
    | first hst => exact SizeFits.endsAbove (hcall d hd hst).2
    | next hst => exact hkeep (by simp [hst]) rfl
  | verified hd hst => exact hkeep (by simp [hst]) rfl
  | verifiedInPlace hd hst => exact SizeFits.endsAbove (hcall d hd hst)
  | rejectedInPlace hd hst => exact absurd hst hstate'
  | execute hd _ _ hst => exact hkeep (by simp [hst]) rfl
  | interrupt hd hw =>
    obtain ⟨e, he, -, -, hst⟩ := h.exec.secure hw
    cases hd.symm.trans he
    exact hkeep (by simp [hst]) rfl
  | resume hd hw hasr => exact hkeep (by simp [h.exec.resumable hw hd hasr]) rfl
  | _ => exact absurd rfl hstate'

omit hm in
/-- **One call** keeps the list in order. -/
theorem ImagesOk.step (hstep : s.step cfg call = some s') : ImagesOk cfg boot s' := by
  obtain ⟨out, hout, rfl⟩ := map_eq_some_iff.mp hstep
  rcases bl1FwuSmcHandler_moves hout with ⟨hs, -⟩ | ⟨imageId, d, d', hm⟩
  · rw [hs]
    exact h
  · have hc := hm.changed h.exec h.once h.running (by rintro rfl; exact hcall)
    exact h.update hc (h.not_mem_move hm hcall) (h.endsAbove_move hm hcall hc)

end

theorem FwuState.Started.imagesOk (h : s.Started boot) : ImagesOk cfg boot s := by
  have hnone : ∀ id, id ≠ invalidImageId → id ∉ s.loadedIds :=
    fun id hid hmem => hid (h.loadedIds id hmem)
  refine ⟨h.execOk, h.running, fun id hid => ?_, fun id hid => ?_, fun id d hd hne hboot => ?_⟩
  · rw [List.count_eq_zero_of_not_mem (hnone id hid)]
    exact Nat.zero_le 1
  · refine iff_of_false (hnone id hid) fun hused => ?_
    obtain ⟨hboot, d, hd, hne⟩ := hused
    exact hne (h.reset id d hd hboot)
  · exact absurd (h.reset id d hd hboot) hne

theorem ImagesOk.overlapsAny (h : ImagesOk cfg boot s) {n : U32} (checked : ImageDesc)
    {ids : List U32} (hids : ∀ id ∈ ids, id ∈ s.loadedIds) :
    Bl1.overlapsAny ⟨true⟩ (s.setDesc imageId { d with imageSize := n }) imageId checked ids ≠
      none := by
  induction ids with
  | nil => simp [Bl1.overlapsAny]
  | cons id ids ih =>
    have hen : ∃ overlap, overlapsLoaded ⟨true⟩
        (s.setDesc imageId { d with imageSize := n }) imageId checked id = some overlap := by
      unfold overlapsLoaded
      by_cases hskip : id = invalidImageId ∨ id = imageId
      · exact ⟨false, if_pos hskip⟩
      · rw [if_neg hskip]
        rw [not_or] at hskip
        obtain ⟨hboot, e, he, hused⟩ := (h.loaded id hskip.1).mp (hids id List.mem_cons_self)
        rw [s.setDesc_of_ne _ hskip.2, he]
        dsimp only
        rw [if_neg fun hbad => hused hbad.2]
        by_cases hsize : e.imageSize = 0
        · exact ⟨false, if_pos hsize⟩
        · rw [if_neg hsize, if_neg fun hbad => hbad.2 (h.ends id e he hused hboot hsize)]
          exact ⟨_, rfl⟩
    obtain ⟨overlap, hove⟩ := hen
    rw [Bl1.overlapsAny, hove]
    cases overlap with
    | true => simp
    | false => exact ih fun id' hid' => hids id' (List.mem_cons_of_mem id hid')

/-- **The list of loaded images in any reachable state** of a run of orderly calls: it
has each image in use once, other than the image that BL1 started, and nothing else;
and no assertion of `bl1_fwu_image_check_overlaps` fails for an image of any size. -/
theorem loaded_images_tracked {cfg : FwuConfig} {boot : U32} {s s' : FwuState}
    {calls : List FwuCall} (hstart : s.Started boot)
    (hcalls : Along (FwuState.step cfg) (OrderlyCall cfg) s calls)
    (hrun : run (FwuState.step cfg) s calls = some s') :
    (∀ id, id ≠ invalidImageId → s'.loadedIds.count id ≤ 1 ∧
      (id ∈ s'.loadedIds ↔ id ≠ boot ∧ ∃ d, s'.descs id = some d ∧ d.state ≠ .reset)) ∧
    ∀ id d n, s'.descs id = some d → n ≠ 0 →
      bl1FwuImageCheckOverlaps ⟨true⟩ (s'.setDesc id { d with imageSize := n }) id ≠ none := by
  have hok : ImagesOk cfg boot s' :=
    run_invariant_along (fun _ _ _ => ImagesOk.step) hstart.imagesOk hcalls hrun
  refine ⟨fun id hid => ⟨hok.once id hid, hok.loaded id hid⟩, fun id d n hd hn => ?_⟩
  unfold bl1FwuImageCheckOverlaps
  rw [s'.setDesc_self]
  dsimp only
  rw [if_neg fun hbad => hn hbad.2, Ne, map_eq_none_iff]
  exact hok.overlapsAny _ fun _ hid => hid

/-! ### Runs -/

/-- Two secure images next to each other, which are executed, and the image 0 of the
normal world, which BL1 started. There is room for two images on the list. -/
def sampleImages : FwuState where
  descs id :=
    if id = 0 then some ⟨.executed, 0, 0, 0, 0, false, true⟩
    else if id = 1 then some ⟨.reset, 0, 0x1000, 0, 0x100, true, true⟩
    else if id = 2 then some ⟨.reset, 0, 0x1100, 0, 0x100, true, true⟩
    else none
  loadedIds := [invalidImageId, invalidImageId]
  secExecImageId := invalidImageId
  world := .nonSecure

theorem sampleImages_started : sampleImages.Started 0 := by
  refine ⟨by decide +kernel, by simp [sampleImages], rfl, rfl, ⟨_, rfl, rfl, rfl⟩,
    fun id d hd hid => ?_⟩
  simp only [sampleImages, if_neg hid] at hd
  split_ifs at hd
  · cases hd
    rfl
  · cases hd
    rfl

/-- The platform and the authentication module accept everything. -/
def acceptAll : PlatAnswers := ⟨0, 0, 0, 0⟩

/-- An image is copied in two blocks and another one in one block. -/
theorem loaded_images_tracked_two :
    ∃ s', run (FwuState.step ⟨true⟩) sampleImages
        [.copy 1 0x8000 0x10 0x20 acceptAll, .copy 2 0x9000 0x40 0x40 acceptAll,
          .copy 1 0x8010 0x10 0 acceptAll] = some s' ∧ s'.loadedIds = [1, 2] ∧
      ∀ id, id ≠ invalidImageId → s'.loadedIds.count id ≤ 1 ∧
        (id ∈ s'.loadedIds ↔ id ≠ 0 ∧ ∃ d, s'.descs id = some d ∧ d.state ≠ .reset) := by
  refine exists_some_imp (by decide)
    fun s' hrun hend => ⟨hend, ?_⟩
  exact (loaded_images_tracked sampleImages_started (by decide) hrun).1

/-- The platform does not let image 1 be loaded: it stays on the list in state RESET,
and the assertion on it fails when image 2 is copied. An image 1 of one byte is not
above its own start, and the assertion on that fails. -/
theorem loaded_images_broken :
    (∃ s', run (FwuState.step ⟨true⟩) sampleImages
        [.copy 1 0x8000 0x10 0x20 ⟨0, 1, 0, 0⟩] = some s' ∧
      1 ∈ s'.loadedIds ∧ (s'.descs 1).map ImageDesc.state = some .reset ∧
      bl1FwuSmcHandler ⟨true⟩ s' (.copy 2 0x9000 0x40 0x40 acceptAll) = none) ∧
    ∃ s', run (FwuState.step ⟨true⟩) sampleImages [.copy 1 0x8000 1 1 acceptAll] = some s' ∧
      bl1FwuSmcHandler ⟨true⟩ s' (.copy 2 0x9000 0x40 0x40 acceptAll) = none := by
  constructor
  · refine exists_some_imp (q := fun s' => 1 ∈ s'.loadedIds ∧ (s'.descs 1).map state = some .reset ∧
      (bl1FwuSmcHandler ⟨true⟩ s' (.copy 2 0x9000 0x40 0x40 acceptAll)).isNone) (by decide)
      fun s' _ ⟨hmem, hst, hnone⟩ => ⟨hmem, hst, isNone_iff_eq_none.mp hnone⟩
  · refine exists_some_imp (by decide)
      fun s' _ hnone => isNone_iff_eq_none.mp hnone

/-! ### What is copied -/

/-- How far the copy of an image is. -/
def ImageDesc.CopyOk (d : ImageDesc) : Prop :=
  match d.state with
  | .copying => d.copiedSize < d.imageSize ∧ d.imageSize ≤ d.imageMaxSize
  | .copied => d.copiedSize = d.imageSize ∧ d.imageSize ≤ d.imageMaxSize
  | _ => True

def FwuState.CopiesOk (s : FwuState) : Prop := ∀ id d, s.descs id = some d → d.CopyOk

/-- A block goes to where the copy of its image has come to, and ends in the area of the image. -/
def CopiesInside (cfg : FwuConfig) (s : FwuState) (out : FwuOutcome) : Prop :=
  ∀ dest len, out.copied = some (dest, len) → ∃ id n d sized, s.descs id = some d ∧
    CopyAllowed cfg s id n d sized ∧ out.state.descs id = some (sized.advance len) ∧
    dest = sized.imageBase + sized.copiedSize.setWidth 64 ∧
    sized.copiedSize.toNat + len.toNat ≤ sized.imageMaxSize.toNat

theorem CopyAllowed.room {n : U32} (h : CopyAllowed cfg s imageId n d d') (hd : d.CopyOk) :
    d'.copiedSize < d'.imageSize ∧ d'.imageSize ≤ d'.imageMaxSize := by
  cases h with
  | first hst hsize hmax => exact ⟨by bv_omega, hmax⟩
  | next hst =>
    rw [CopyOk, hst] at hd
    exact hd

/-- **One call** copies no more than is left of the image. -/
theorem FwuState.CopiesOk.handler (h : s.CopiesOk)
    (hout : bl1FwuSmcHandler cfg s call = some out) :
    out.state.CopiesOk ∧ CopiesInside cfg s out := by
  rcases bl1FwuSmcHandler_moves hout with ⟨hs, hnone⟩ | ⟨imageId, d, d', hm⟩
  · rw [hs]
    exact ⟨h, by simp [CopiesInside, hnone]⟩
  have hset : ∀ {ids ex w e}, e.CopyOk →
      CopiesOk { s.setDesc imageId e with loadedIds := ids, secExecImageId := ex, world := w } := by
    intro ids ex w e he id d hd
    obtain rfl | hid := eq_or_ne id imageId
    · cases (s.setDesc_self id e).symm.trans hd
      exact he
    · exact h id d ((s.setDesc_of_ne e hid).symm.trans hd)
  cases hm with
  | block block hd hall hadd hblock =>
    obtain ⟨hlt, hle⟩ := hall.room (h imageId d hd)
    refine ⟨hset ?_, fun dest len hcop => ?_⟩
    · unfold CopyOk advance
      split_ifs <;> dsimp <;> bv_omega
    · cases hcop
      exact ⟨imageId, _, d, _, hd, hall, s.setDesc_self _ _, rfl, by bv_omega⟩
  | size n c hd hst | rejectedInPlace hd hst =>
    exact ⟨hset (by simp [CopyOk, hst]), by simp [CopiesInside]⟩
  | _ => exact ⟨hset trivial, by simp [CopiesInside]⟩

/-- **No block leaves the area of its image**, whatever calls came before; and an image that
counts as copied has been copied in whole. -/
theorem fwu_copies_contained {calls : List FwuCall} (hstart : s.Started boot)
    (hrun : run (FwuState.step cfg) s calls = some s') : s'.CopiesOk ∧
      ∀ call out, bl1FwuSmcHandler cfg s' call = some out → CopiesInside cfg s' out := by
  have hinit : s.CopiesOk := by
    intro id d hd
    by_cases hid : id = boot
    · obtain ⟨e, he, hst, -⟩ := hstart.running
      cases (hid ▸ hd).symm.trans he
      simp [CopyOk, hst]
    · simp [CopyOk, hstart.reset id d hd hid]
  have hok : s'.CopiesOk := by
    refine run_invariant (fun s call s' h hstep => ?_) hinit hrun
    obtain ⟨out, hout, rfl⟩ := map_eq_some_iff.mp hstep
    exact (h.handler hout).1
  exact ⟨hok, fun call out hout => (hok.handler hout).2⟩

theorem fwu_copies_contained_first :
    ∃ s', run (FwuState.step ⟨false⟩) sampleImages [.copy 1 0x8000 0x10 0x20 acceptAll] = some s' ∧
      s'.CopiesOk :=
  exists_some_imp (q := fun _ => True) (by decide)
    fun _ hrun _ => (fwu_copies_contained sampleImages_started hrun).1

end TrustedFirmware.Bl1
