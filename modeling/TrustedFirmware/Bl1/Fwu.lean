import Mathlib.Data.List.Perm.Basic
import TrustedFirmware.Lib.Run

/-!
# The firmware update service of BL1 (`bl1_fwu.c`)

The SMCs with which the normal world copies, authenticates and executes secure images,
and the secure images resume the normal world.

A call is an `FwuCall` by the world that is running. What the platform and the
authentication module answer is part of the call, so that a statement about all calls
is one about all answers. A failed assertion is `none`, if assertions are compiled in,
and so are a null pointer that is dereferenced and a platform function that does not
return. Memory is modelled by what is copied where (`FwuOutcome.copied`): the
contents of images do not matter to the state machine. The authentication flags of
the image (`auth_img_flags`) are not part of the model, as no function here reads them.
-/

namespace TrustedFirmware.Bl1

open List Option

abbrev U32 := BitVec 32
abbrev U64 := BitVec 64

def ePerm : Int := 1
def eNoMem : Int := 12
def eAuth : Int := 80

def invalidImageId : U32 := 0xFFFFFFFF

/-- `IMAGE_STATE_RESET` and so on. -/
inductive ImageState
  | reset
  | copied
  | copying
  | authenticated
  | executed
  | interrupted
  deriving DecidableEq, Repr

inductive World
  | secure
  | nonSecure
  deriving DecidableEq, Repr

/-- `image_desc_t`, with the fields of `image_info` and the attributes of `ep_info`. -/
structure ImageDesc where
  state : ImageState
  copiedSize : U32
  imageBase : U64
  imageSize : U32
  imageMaxSize : U32
  secure : Bool
  executable : Bool
  deriving DecidableEq, Repr

/-- The state of the service: `bl1_plat_get_image_desc`, `bl1_fwu_loaded_ids`,
`sec_exec_image_id`, and the world that is running. -/
structure FwuState where
  descs : U32 → Option ImageDesc
  loadedIds : List U32
  secExecImageId : U32
  world : World

/-- Whether assertions are compiled in (`ENABLE_ASSERTIONS`). -/
structure FwuConfig where
  assertions : Bool
  deriving DecidableEq, Repr

/-- The value that a call returns, the state after it, and where it copied a block of
an image to, with the length of the block. -/
structure FwuOutcome where
  state : FwuState
  ret : Int
  copied : Option (U64 × U32)

/-- What functions outside the service answer. -/
structure PlatAnswers where
  /-- `bl1_plat_mem_check` -/
  memCheck : Int
  /-- `bl1_plat_handle_pre_image_load` -/
  preImageLoad : Int
  /-- `auth_mod_verify_img` -/
  verifyImg : Int
  /-- `bl1_plat_handle_post_image_load` -/
  postImageLoad : Int
  deriving DecidableEq, Repr

/-- The call returns an error and changes nothing. -/
def FwuState.refuse (s : FwuState) (ret : Int) : Option FwuOutcome := some ⟨s, ret, none⟩

def FwuState.setDesc (s : FwuState) (imageId : U32) (d : ImageDesc) : FwuState :=
  { s with descs := Function.update s.descs imageId (some d) }

/-! ### The list of loaded images -/

/-- The list with the first `old` replaced by `new`. -/
def replaceFirst (old new : U32) : List U32 → List U32
  | [] => []
  | id :: ids => if id = old then new :: ids else id :: replaceFirst old new ids

/-- `bl1_fwu_add_loaded_id`; `none` is its error. -/
def bl1FwuAddLoadedId (ids : List U32) (imageId : U32) : Option (List U32) :=
  if imageId ∈ ids then some ids
  else if invalidImageId ∈ ids then some (replaceFirst invalidImageId imageId ids)
  else none

/-- `bl1_fwu_remove_loaded_id`; `none` is its error. -/
def bl1FwuRemoveLoadedId (ids : List U32) (imageId : U32) : Option (List U32) :=
  if imageId ∈ ids then some (replaceFirst imageId invalidImageId ids) else none

/-- The address of the last byte of an image of the given size. -/
def ImageDesc.imageEnd (d : ImageDesc) : U64 := d.imageBase + d.imageSize.setWidth 64 - 1

/-- One iteration of `bl1_fwu_image_check_overlaps`: whether the loaded image `id`
overlaps the checked one. -/
def overlapsLoaded (cfg : FwuConfig) (s : FwuState) (imageId : U32) (checked : ImageDesc)
    (id : U32) : Option Bool :=
  -- Skip INVALID_IMAGE_IDs and don't check image against itself
  if id = invalidImageId ∨ id = imageId then some false
  else
    match s.descs id with
    | none => none
    | some d =>
      if cfg.assertions ∧ d.state = .reset then none
      -- There cannot be overlaps with an empty image.
      else if d.imageSize = 0 then some false
      else if cfg.assertions ∧ ¬ d.imageEnd > d.imageBase then none
      else some (decide (¬ (d.imageEnd < checked.imageBase ∨ checked.imageEnd < d.imageBase)))

/-- The loop of `bl1_fwu_image_check_overlaps`. -/
def overlapsAny (cfg : FwuConfig) (s : FwuState) (imageId : U32) (checked : ImageDesc) :
    List U32 → Option Bool
  | [] => some false
  | id :: ids =>
    match overlapsLoaded cfg s imageId checked id with
    | none => none
    | some true => some true
    | some false => overlapsAny cfg s imageId checked ids

/-- `bl1_fwu_image_check_overlaps`. -/
def bl1FwuImageCheckOverlaps (cfg : FwuConfig) (s : FwuState) (imageId : U32) : Option Int :=
  match s.descs imageId with
  | none => none
  | some checked =>
    if cfg.assertions ∧ checked.imageSize = 0 then none
    else (overlapsAny cfg s imageId checked s.loadedIds).map fun overlap =>
      if overlap then -ePerm else 0

/-! ### The calls -/

/-- `check_uptr_overflow`. -/
def checkUptrOverflow (ptr inc : U64) : Bool := ptr > BitVec.allOnes 64 - inc

/-- The end of `bl1_fwu_image_copy`, once the size of the image is known: copy the next
block. -/
def copyBlock (s : FwuState) (imageId : U32) (d : ImageDesc) (blockSize : U32)
    (plat : PlatAnswers) : Option FwuOutcome :=
  let remaining := d.imageSize - d.copiedSize
  let blockSize := if blockSize > remaining then remaining else blockSize
  if plat.memCheck ≠ 0 then s.refuse (-eNoMem)
  else
    match bl1FwuAddLoadedId s.loadedIds imageId with
    | none => s.refuse (-eNoMem)
    | some ids =>
      let s := { s with loadedIds := ids }
      if d.state = .reset ∧ plat.preImageLoad ≠ 0 then s.refuse (-ePerm)
      else
        some {
          state := s.setDesc imageId { d with
            copiedSize := d.copiedSize + blockSize
            state := if blockSize = remaining then .copied else .copying }
          ret := 0
          copied := some (d.imageBase + d.copiedSize.setWidth 64, blockSize) }

/-- `bl1_fwu_image_copy`. -/
def bl1FwuImageCopy (cfg : FwuConfig) (s : FwuState) (imageId : U32) (imageSrc : U64)
    (blockSize imageSize : U32) (plat : PlatAnswers) : Option FwuOutcome :=
  match s.descs imageId with
  | none => s.refuse (-ePerm)
  | some d =>
    if s.world = .secure then s.refuse (-ePerm)
    else if ¬ d.secure then s.refuse (-ePerm)
    else if d.state ≠ .reset ∧ d.state ≠ .copying then s.refuse (-ePerm)
    else if imageSrc = 0 ∨ blockSize = 0 ∨
        checkUptrOverflow imageSrc ((blockSize - 1).setWidth 64) then s.refuse (-eNoMem)
    else if d.state = .copying then
      if cfg.assertions ∧ (d.copiedSize = 0 ∨ d.imageSize = 0 ∨ ¬ d.copiedSize < d.imageSize) then
        none
      else copyBlock s imageId d blockSize plat
    else if imageSize = 0 then s.refuse (-eNoMem)
    else if imageSize > d.imageMaxSize then s.refuse (-eNoMem)
    else
      -- Save the given image size and make sure the image doesn't overlap other images.
      let sized := { d with imageSize := imageSize }
      match bl1FwuImageCheckOverlaps cfg (s.setDesc imageId sized) imageId with
      | none => none
      | some r =>
        if r ≠ 0 then (s.setDesc imageId { d with imageSize := 0 }).refuse (-ePerm)
        else
          copyBlock (s.setDesc imageId { sized with copiedSize := 0 }) imageId
            { sized with copiedSize := 0 } blockSize plat

/-- The end of `bl1_fwu_image_auth`: authenticate the image. -/
def verifyImage (s : FwuState) (imageId : U32) (d : ImageDesc) (plat : PlatAnswers) :
    Option FwuOutcome :=
  if plat.verifyImg ≠ 0 then
    -- Indicate that image can be copied again
    let s := if d.state = .copied then s.setDesc imageId { d with state := .reset } else s
    -- Even if this fails it's ok
    let ids := (bl1FwuRemoveLoadedId s.loadedIds imageId).getD s.loadedIds
    { s with loadedIds := ids }.refuse (-eAuth)
  else if plat.postImageLoad ≠ 0 then none
  else (s.setDesc imageId { d with state := .authenticated }).refuse 0

/-- The state that an image has to be in to be authenticated. -/
def authState (caller : World) (d : ImageDesc) : ImageState :=
  if caller = .secure then .reset
  else if d.secure then .copied
  else .reset

/-- `bl1_fwu_image_auth`. -/
def bl1FwuImageAuth (s : FwuState) (imageId : U32) (imageSrc : U64) (imageSize : U32)
    (plat : PlatAnswers) : Option FwuOutcome :=
  match s.descs imageId with
  | none => s.refuse (-ePerm)
  | some d =>
    if d.state ≠ authState s.world d then s.refuse (-ePerm)
    else if d.state = .copied then verifyImage s imageId d plat
    else if imageSrc = 0 ∨ imageSize = 0 ∨
        checkUptrOverflow imageSrc ((imageSize - 1).setWidth 64) then s.refuse (-eNoMem)
    else if plat.memCheck ≠ 0 then s.refuse (-eNoMem)
    else
      match bl1FwuAddLoadedId s.loadedIds imageId with
      | none => s.refuse (-eNoMem)
      | some ids =>
        -- Update the image size in the descriptor.
        let sized := { d with imageSize := imageSize }
        verifyImage { s.setDesc imageId sized with loadedIds := ids } imageId sized plat

/-- `bl1_fwu_image_execute`, with what `bl1_prepare_next_image` does to the descriptor. -/
def bl1FwuImageExecute (s : FwuState) (imageId : U32) : Option FwuOutcome :=
  match s.descs imageId with
  | none => s.refuse (-ePerm)
  | some d =>
    if s.world = .secure ∨ ¬ d.secure ∨ ¬ d.executable ∨ d.state ≠ .authenticated then
      s.refuse (-ePerm)
    else
      { s.setDesc imageId { d with state := .executed } with
        secExecImageId := imageId, world := .secure }.refuse 0

/-- `bl1_fwu_image_resume`. -/
def bl1FwuImageResume (cfg : FwuConfig) (s : FwuState) (imageParam : Int) : Option FwuOutcome :=
  match s.descs s.secExecImageId with
  | none => if s.world = .nonSecure then s.refuse (-ePerm) else none
  | some d =>
    if cfg.assertions ∧ ¬ (d.secure ∧ d.executable) then none
    else
      match s.world with
      | .secure =>
        if cfg.assertions ∧ d.state ≠ .executed then none
        else
          { s.setDesc s.secExecImageId { d with state := .interrupted } with
            world := .nonSecure }.refuse imageParam
      | .nonSecure =>
        if cfg.assertions ∧ d.state ≠ .interrupted then none
        else
          { s.setDesc s.secExecImageId { d with state := .executed } with
            world := .secure }.refuse imageParam

/-- `bl1_fwu_sec_image_done`. -/
def bl1FwuSecImageDone (cfg : FwuConfig) (s : FwuState) : Option FwuOutcome :=
  if s.world = .nonSecure then s.refuse (-ePerm)
  else
    match s.descs s.secExecImageId with
    | none => none
    | some d =>
      if cfg.assertions ∧ ¬ (d.secure ∧ d.executable ∧ d.state = .executed) then none
      else if cfg.assertions ∧ bl1FwuRemoveLoadedId s.loadedIds s.secExecImageId = none then none
      else
        { s.setDesc s.secExecImageId { d with state := .reset } with
          loadedIds := (bl1FwuRemoveLoadedId s.loadedIds s.secExecImageId).getD s.loadedIds
          secExecImageId := invalidImageId
          world := .nonSecure }.refuse 0

/-- `bl1_fwu_image_reset`. -/
def bl1FwuImageReset (cfg : FwuConfig) (s : FwuState) (imageId : U32) : Option FwuOutcome :=
  match s.descs imageId with
  | none => s.refuse (-ePerm)
  | some d =>
    if s.world = .secure then s.refuse (-ePerm)
    else
      match d.state with
      | .reset => s.refuse 0
      | .interrupted | .authenticated | .copied | .copying =>
        match bl1FwuRemoveLoadedId s.loadedIds imageId with
        | none => s.refuse (-ePerm)
        | some ids =>
          if cfg.assertions ∧ d.copiedSize ≠ 0 ∧ ¬ d.secure then none
          else
            { s.setDesc imageId { d with copiedSize := 0, imageSize := 0, state := .reset } with
              loadedIds := ids }.refuse 0
      | .executed => if cfg.assertions then none else s.refuse 0

/-- A call of the service, with its arguments and what the platform answers to it. -/
inductive FwuCall
  | copy (imageId : U32) (imageSrc : U64) (blockSize imageSize : U32) (plat : PlatAnswers)
  | auth (imageId : U32) (imageSrc : U64) (imageSize : U32) (plat : PlatAnswers)
  | execute (imageId : U32)
  | resume (imageParam : Int)
  | secImageDone
  | reset (imageId : U32)
  | updateDone
  deriving DecidableEq, Repr

/-- `bl1_fwu_smc_handler`. `FWU_SMC_UPDATE_DONE` does not return. -/
def bl1FwuSmcHandler (cfg : FwuConfig) (s : FwuState) : FwuCall → Option FwuOutcome
  | .copy imageId imageSrc blockSize imageSize plat =>
    bl1FwuImageCopy cfg s imageId imageSrc blockSize imageSize plat
  | .auth imageId imageSrc imageSize plat => bl1FwuImageAuth s imageId imageSrc imageSize plat
  | .execute imageId => bl1FwuImageExecute s imageId
  | .resume imageParam => bl1FwuImageResume cfg s imageParam
  | .secImageDone => bl1FwuSecImageDone cfg s
  | .reset imageId => bl1FwuImageReset cfg s imageId
  | .updateDone => none

/-- The state once BL1 has started a firmware update: it runs the image `boot`, which
is one of the normal world, and no image is loaded. -/
structure FwuState.Started (boot : U32) (s : FwuState) : Prop where
  invalid : s.descs invalidImageId = none
  loadedIds : ∀ id ∈ s.loadedIds, id = invalidImageId
  secExec : s.secExecImageId = invalidImageId
  world : s.world = .nonSecure
  running : ∃ d, s.descs boot = some d ∧ d.state = .executed ∧ d.secure = false
  reset : ∀ id d, s.descs id = some d → id ≠ boot → d.state = .reset

/-! ### What a call can do -/

variable {imageId id : U32} {ids ids' : List U32}

theorem replaceFirst_perm {old new : U32} (h : old ∈ ids) :
    (replaceFirst old new ids).Perm (new :: ids.erase old) := by
  induction ids with
  | nil => exact absurd h not_mem_nil
  | cons id ids ih =>
    obtain rfl | hid := eq_or_ne id old
    · simp [replaceFirst]
    · have hmem : old ∈ ids := (mem_cons.mp h).resolve_left (Ne.symm hid)
      rw [replaceFirst, if_neg hid, erase_cons_tail (by simpa using hid)]
      exact ((ih hmem).cons id).trans (List.Perm.swap new id _)

theorem mem_of_addLoadedId (h : bl1FwuAddLoadedId ids imageId = some ids')
    (hid : id ≠ invalidImageId) : id ∈ ids' ↔ id ∈ ids ∨ id = imageId := by
  unfold bl1FwuAddLoadedId at h
  split_ifs at h with hmem hfree
  · cases h
    exact ⟨.inl, fun h => h.elim (fun h => h) fun h => h ▸ hmem⟩
  · cases h
    rw [(replaceFirst_perm hfree).mem_iff, mem_cons, mem_erase_of_ne hid]
    exact or_comm

/-- No image is in the list twice. -/
def LoadedOnce (ids : List U32) : Prop := ∀ id, id ≠ invalidImageId → ids.count id ≤ 1

theorem LoadedOnce.addLoadedId (hone : LoadedOnce ids)
    (h : bl1FwuAddLoadedId ids imageId = some ids') : LoadedOnce ids' := by
  intro id hid
  unfold bl1FwuAddLoadedId at h
  split_ifs at h with hmem hfree
  · cases h
    exact hone id hid
  · cases h
    rw [(replaceFirst_perm hfree).count_eq, count_cons, count_erase_of_ne hid]
    obtain rfl | heq := eq_or_ne imageId id
    · simp [count_eq_zero_of_not_mem hmem]
    · simp [heq, hone id hid]

/-- The list once an image is off it. -/
def withoutLoaded (ids : List U32) (imageId : U32) : List U32 :=
  (bl1FwuRemoveLoadedId ids imageId).getD ids

theorem mem_withoutLoaded (hone : LoadedOnce ids) (hid : id ≠ invalidImageId) :
    id ∈ withoutLoaded ids imageId ↔ id ∈ ids ∧ id ≠ imageId := by
  unfold withoutLoaded bl1FwuRemoveLoadedId
  split_ifs with hmem
  · rw [getD_some, (replaceFirst_perm hmem).mem_iff, mem_cons, or_iff_right hid]
    obtain rfl | heq := eq_or_ne id imageId
    · have hcnt : (ids.erase id).count id = 0 := by
        have hle := hone id hid
        rw [count_erase_self]
        omega
      simp [count_eq_zero.mp hcnt]
    · rw [mem_erase_of_ne heq]
      exact ⟨fun h => ⟨h, heq⟩, And.left⟩
  · exact ⟨fun h => ⟨h, fun heq => hmem (heq ▸ h)⟩, And.left⟩

theorem LoadedOnce.withoutLoaded (hone : LoadedOnce ids) (imageId : U32) :
    LoadedOnce (withoutLoaded ids imageId) := by
  intro id hid
  have hle := hone id hid
  unfold Bl1.withoutLoaded bl1FwuRemoveLoadedId
  split_ifs with hmem
  · have herase := (ids.erase_sublist (a := imageId)).count_le id
    rw [getD_some, (replaceFirst_perm hmem).count_eq, count_cons_of_ne (hid.symm)]
    omega
  · exact hle

@[simp] theorem FwuState.setDesc_self (s : FwuState) (imageId : U32) (d : ImageDesc) :
    (s.setDesc imageId d).descs imageId = some d := Function.update_self _ _ _

theorem FwuState.setDesc_of_ne (s : FwuState) (d : ImageDesc) (h : id ≠ imageId) :
    (s.setDesc imageId d).descs id = s.descs id := Function.update_of_ne h _ _

@[simp] theorem FwuState.setDesc_setDesc (s : FwuState) (imageId : U32) (d d' : ImageDesc) :
    (s.setDesc imageId d).setDesc imageId d' = s.setDesc imageId d' := by
  simp [FwuState.setDesc]

/-- A descriptor once `block` bytes more are copied. -/
def ImageDesc.advance (d : ImageDesc) (block : U32) : ImageDesc :=
  { d with
    copiedSize := d.copiedSize + block
    state := if block = d.imageSize - d.copiedSize then .copied else .copying }

/-- What is so when a block of the image `imageId` is copied, and the descriptor
before the block is accounted for. -/
inductive CopyAllowed (cfg : FwuConfig) (s : FwuState) (imageId imageSize : U32) (d : ImageDesc) :
    ImageDesc → Prop
  | first (hstate : d.state = .reset) (hsize : imageSize ≠ 0) (hmax : imageSize ≤ d.imageMaxSize)
      (hcheck : bl1FwuImageCheckOverlaps cfg
        (s.setDesc imageId { d with imageSize := imageSize }) imageId = some 0) :
      CopyAllowed cfg s imageId imageSize d { d with imageSize := imageSize, copiedSize := 0 }
  | next (hstate : d.state = .copying) : CopyAllowed cfg s imageId imageSize d d

/-- What a call does that changes a state: the descriptor of one image, from `d` to `d'`, the list,
and the world that runs. -/
inductive Move (cfg : FwuConfig) (s : FwuState) :
    FwuCall → U32 → ImageDesc → ImageDesc → FwuOutcome → Prop
  /-- No block is copied, but the size of an image in state RESET is recorded. -/
  | size {imageId imageSrc blockSize imageSize plat d ids ret} (n c : U32)
      (hd : s.descs imageId = some d) (hstate : d.state = .reset)
      (hids : ids = s.loadedIds ∨
        bl1FwuAddLoadedId s.loadedIds imageId = some ids ∧ plat.preImageLoad ≠ 0) :
      Move cfg s (.copy imageId imageSrc blockSize imageSize plat) imageId d
        { d with imageSize := n, copiedSize := c }
        ⟨{ s.setDesc imageId { d with imageSize := n, copiedSize := c } with loadedIds := ids },
          ret, none⟩
  /-- A block is copied. -/
  | block {imageId imageSrc blockSize imageSize plat d sized ids ret} (block : U32)
      (hd : s.descs imageId = some d) (hallowed : CopyAllowed cfg s imageId imageSize d sized)
      (hadd : bl1FwuAddLoadedId s.loadedIds imageId = some ids)
      (hblock : block ≤ sized.imageSize - sized.copiedSize) :
      Move cfg s (.copy imageId imageSrc blockSize imageSize plat) imageId d (sized.advance block)
        ⟨{ s.setDesc imageId (sized.advance block) with loadedIds := ids }, ret,
          some (sized.imageBase + sized.copiedSize.setWidth 64, block)⟩
  /-- An image that was copied is authenticated, or is out of the list. -/
  | verified {imageId imageSrc imageSize plat d} (hd : s.descs imageId = some d)
      (hstate : d.state = .copied) :
      Move cfg s (.auth imageId imageSrc imageSize plat) imageId d
        { d with state := .authenticated }
        ⟨s.setDesc imageId { d with state := .authenticated }, 0, none⟩
  | rejected {imageId imageSrc imageSize plat d ret} (hd : s.descs imageId = some d)
      (hstate : d.state = .copied) :
      Move cfg s (.auth imageId imageSrc imageSize plat) imageId d { d with state := .reset }
        ⟨{ s.setDesc imageId { d with state := .reset } with
          loadedIds := withoutLoaded s.loadedIds imageId }, ret, none⟩
  /-- So is one that is authenticated in place. -/
  | verifiedInPlace {imageId imageSrc imageSize plat d ids} (hd : s.descs imageId = some d)
      (hstate : d.state = .reset) (hplace : s.world = .secure ∨ d.secure = false)
      (hadd : bl1FwuAddLoadedId s.loadedIds imageId = some ids) :
      Move cfg s (.auth imageId imageSrc imageSize plat) imageId d
        { d with imageSize := imageSize, state := .authenticated }
        ⟨{ s.setDesc imageId { d with imageSize := imageSize, state := .authenticated } with
          loadedIds := ids }, 0, none⟩
  | rejectedInPlace {imageId imageSrc imageSize plat d ids ret} (hd : s.descs imageId = some d)
      (hstate : d.state = .reset) (hadd : bl1FwuAddLoadedId s.loadedIds imageId = some ids) :
      Move cfg s (.auth imageId imageSrc imageSize plat) imageId d { d with imageSize := imageSize }
        ⟨{ s.setDesc imageId { d with imageSize := imageSize } with
          loadedIds := withoutLoaded ids imageId }, ret, none⟩
  | execute {imageId d ret} (hd : s.descs imageId = some d) (hsec : d.secure = true)
      (hexe : d.executable = true) (hstate : d.state = .authenticated) :
      Move cfg s (.execute imageId) imageId d { d with state := .executed }
        ⟨{ s.setDesc imageId { d with state := .executed } with
          secExecImageId := imageId, world := .secure }, ret, none⟩
  | interrupt {imageParam d} (hd : s.descs s.secExecImageId = some d) (hw : s.world = .secure) :
      Move cfg s (.resume imageParam) s.secExecImageId d { d with state := .interrupted }
        ⟨{ s.setDesc s.secExecImageId { d with state := .interrupted } with
          world := .nonSecure }, imageParam, none⟩
  | resume {imageParam d} (hd : s.descs s.secExecImageId = some d) (hw : s.world = .nonSecure)
      (hassert : cfg.assertions = true → d.state = .interrupted) :
      Move cfg s (.resume imageParam) s.secExecImageId d { d with state := .executed }
        ⟨{ s.setDesc s.secExecImageId { d with state := .executed } with
          world := .secure }, imageParam, none⟩
  | done {d ret} (hd : s.descs s.secExecImageId = some d) (hw : s.world = .secure) :
      Move cfg s .secImageDone s.secExecImageId d { d with state := .reset }
        ⟨{ s.setDesc s.secExecImageId { d with state := .reset } with
          loadedIds := withoutLoaded s.loadedIds s.secExecImageId
          secExecImageId := invalidImageId
          world := .nonSecure }, ret, none⟩
  | reset {imageId d ret} (hd : s.descs imageId = some d) (hexec : d.state ≠ .executed) :
      Move cfg s (.reset imageId) imageId d
        { d with copiedSize := 0, imageSize := 0, state := .reset }
        ⟨{ s.setDesc imageId { d with copiedSize := 0, imageSize := 0, state := .reset } with
          loadedIds := withoutLoaded s.loadedIds imageId }, ret, none⟩

/-- A call changes nothing, or it makes a move. -/
def Moves (cfg : FwuConfig) (s : FwuState) (call : FwuCall) (out : FwuOutcome) : Prop :=
  (out.state = s ∧ out.copied = none) ∨ ∃ imageId d d', Move cfg s call imageId d d' out

variable {cfg : FwuConfig} {s : FwuState} {d d' : ImageDesc} {imageSrc : U64}
  {blockSize imageSize : U32} {plat : PlatAnswers} {call : FwuCall} {out : FwuOutcome}

theorem Moves.refuse {ret : Int} (h : s.refuse ret = some out) : Moves cfg s call out := by
  cases h
  exact .inl ⟨rfl, rfl⟩

theorem Move.moves (hm : Move cfg s call imageId d d' out) : Moves cfg s call out :=
  .inr ⟨imageId, d, d', hm⟩

/-- What `copyBlock` does: nothing, or nothing but to put the image on the list, or it
copies a block. -/
theorem copyBlock_eq_some (h : copyBlock s imageId d blockSize plat = some out) :
    (out.state = s ∧ out.copied = none) ∨
    ∃ ids, bl1FwuAddLoadedId s.loadedIds imageId = some ids ∧
      ((d.state = .reset ∧ plat.preImageLoad ≠ 0 ∧ out.state = { s with loadedIds := ids } ∧
        out.copied = none) ∨
      ∃ block ≤ d.imageSize - d.copiedSize,
        out.state = { s.setDesc imageId (d.advance block) with loadedIds := ids } ∧
        out.copied = some (d.imageBase + d.copiedSize.setWidth 64, block)) := by
  unfold copyBlock at h
  split at h
  · cases h
    exact .inl ⟨rfl, rfl⟩
  split at h
  · cases h
    exact .inl ⟨rfl, rfl⟩
  next ids hadd =>
    refine .inr ⟨ids, hadd, ?_⟩
    split at h
    next hpre =>
      cases h
      exact .inl ⟨hpre.1, hpre.2, rfl, rfl⟩
    next hpre =>
      cases h
      refine .inr ⟨_, ?_, rfl, rfl⟩
      split
      · exact BitVec.le_refl _
      next hgt => exact BitVec.not_lt.mp hgt

theorem bl1FwuImageCopy_moves
    (h : bl1FwuImageCopy cfg s imageId imageSrc blockSize imageSize plat = some out) :
    Moves cfg s (.copy imageId imageSrc blockSize imageSize plat) out := by
  unfold bl1FwuImageCopy at h
  split at h
  · exact .refuse h
  next d hd =>
    dsimp only at h
    split_ifs at h with hwd hsec hstate hargs hcop hassert hzero hmax
    · exact .refuse h
    · exact .refuse h
    · exact .refuse h
    · -- A further block of an image that is being copied.
      obtain ⟨s', ret, copied⟩ := out
      rcases copyBlock_eq_some h with hsame | ⟨ids, hadd, ⟨hrs, -⟩ | ⟨block, hle, rfl, rfl⟩⟩
      · exact .inl hsame
      · cases hrs.symm.trans hcop
      · exact (Move.block block hd (.next hcop) hadd hle).moves
    · exact .refuse h
    · exact .refuse h
    · -- The first block.
      have hrs : d.state = .reset := by
        by_contra hne
        exact hstate ⟨hne, hcop⟩
      split at h
      · cases h
      next r hcheck =>
        split_ifs at h with hr
        · cases h
          exact (Move.size 0 d.copiedSize hd hrs (.inl rfl)).moves
        · obtain rfl : r = 0 := not_not.mp hr
          obtain ⟨s', ret, copied⟩ := out
          rcases copyBlock_eq_some h with
            ⟨rfl, rfl⟩ | ⟨ids, hadd, ⟨-, hpre, rfl, rfl⟩ | ⟨block, hle, rfl, rfl⟩⟩
          · exact (Move.size imageSize 0 hd hrs (.inl rfl)).moves
          · exact (Move.size imageSize 0 hd hrs (.inr ⟨hadd, hpre⟩)).moves
          · rw [FwuState.setDesc_setDesc]
            exact (Move.block block hd (.first hrs hzero (BitVec.not_lt.mp hmax) hcheck) hadd
              hle).moves
    · exact .refuse h

/-- What `verifyImage` does: the image is authenticated, or is out of the list. -/
theorem verifyImage_eq_some (h : verifyImage s imageId d plat = some out) :
    (out = ⟨s.setDesc imageId { d with state := .authenticated }, 0, none⟩) ∨
    out = ⟨{ (if d.state = .copied then s.setDesc imageId { d with state := .reset } else s) with
      loadedIds := withoutLoaded s.loadedIds imageId }, -eAuth, none⟩ := by
  unfold verifyImage at h
  split_ifs at h with hverify hcop
  · cases h
    rw [if_pos hcop]
    exact .inr rfl
  · cases h
    rw [if_neg hcop]
    exact .inr rfl
  · cases h
    exact .inl rfl

theorem bl1FwuImageAuth_moves (h : bl1FwuImageAuth s imageId imageSrc imageSize plat = some out) :
    Moves cfg s (.auth imageId imageSrc imageSize plat) out := by
  unfold bl1FwuImageAuth at h
  split at h
  · exact .refuse h
  next d hd =>
    split_ifs at h with hstate hcop hargs hmem
    · exact .refuse h
    · rcases verifyImage_eq_some h with rfl | rfl
      · exact (Move.verified hd hcop).moves
      · rw [if_pos hcop]
        exact (Move.rejected hd hcop).moves
    · exact .refuse h
    · exact .refuse h
    split at h
    · exact .refuse h
    next ids hadd =>
      have hplace : d.state = .reset ∧ (s.world = .secure ∨ d.secure = false) := by
        rw [not_not, authState] at hstate
        split_ifs at hstate with hwd hsec
        · exact ⟨hstate, .inl hwd⟩
        · exact absurd hstate hcop
        · exact ⟨hstate, .inr (by simpa using hsec)⟩
      rcases verifyImage_eq_some h with rfl | rfl
      · have hm : Move cfg s (.auth imageId imageSrc imageSize plat) imageId d _ _ :=
          .verifiedInPlace hd hplace.1 hplace.2 hadd
        simpa [FwuState.setDesc] using hm.moves
      · rw [if_neg hcop]
        exact (Move.rejectedInPlace hd hplace.1 hadd).moves

theorem bl1FwuImageExecute_moves (h : bl1FwuImageExecute s imageId = some out) :
    Moves cfg s (.execute imageId) out := by
  unfold bl1FwuImageExecute at h
  split at h
  · exact .refuse h
  next d hd =>
    split_ifs at h with hbad
    · exact .refuse h
    · cases h
      simp only [not_or, not_not] at hbad
      exact (Move.execute hd hbad.2.1 hbad.2.2.1 hbad.2.2.2).moves

theorem bl1FwuImageResume_moves {imageParam : Int}
    (h : bl1FwuImageResume cfg s imageParam = some out) :
    Moves cfg s (.resume imageParam) out := by
  unfold bl1FwuImageResume at h
  split at h
  · split_ifs at h
    exact .refuse h
  next d hd =>
    obtain ⟨-, h⟩ := ite_none_left_eq_some.mp h
    split at h
    next hw =>
      obtain ⟨-, h⟩ := ite_none_left_eq_some.mp h
      cases h
      exact (Move.interrupt hd hw).moves
    next hw =>
      obtain ⟨hassert, h⟩ := ite_none_left_eq_some.mp h
      cases h
      exact (Move.resume hd hw fun ha => not_not.mp fun hne => hassert ⟨ha, hne⟩).moves

theorem bl1FwuSecImageDone_moves (h : bl1FwuSecImageDone cfg s = some out) :
    Moves cfg s .secImageDone out := by
  unfold bl1FwuSecImageDone at h
  split at h
  · exact .refuse h
  next hwd =>
    have hw : s.world = .secure := by
      cases hw : s.world with
      | secure => rfl
      | nonSecure => exact absurd hw hwd
    split at h
    · cases h
    next d hd =>
      split_ifs at h
      cases h
      exact (Move.done hd hw).moves

theorem bl1FwuImageReset_moves (h : bl1FwuImageReset cfg s imageId = some out) :
    Moves cfg s (.reset imageId) out := by
  unfold bl1FwuImageReset at h
  split at h
  · exact .refuse h
  next d hd =>
    split at h
    · exact .refuse h
    generalize hstate : d.state = v at h
    cases v with
    | reset =>
      exact .refuse h
    | executed =>
      obtain ⟨-, h⟩ := ite_none_left_eq_some.mp h
      exact .refuse h
    | _ =>
      dsimp only at h
      split at h
      · exact .refuse h
      next ids hrem =>
        obtain ⟨-, h⟩ := ite_none_left_eq_some.mp h
        obtain rfl : withoutLoaded s.loadedIds imageId = ids := by rw [withoutLoaded, hrem]; rfl
        cases h
        exact (Move.reset hd (by rw [hstate]; decide)).moves

/-- **What a call can do.** -/
theorem bl1FwuSmcHandler_moves (h : bl1FwuSmcHandler cfg s call = some out) :
    Moves cfg s call out := by
  cases call with
  | copy => exact bl1FwuImageCopy_moves h
  | auth => exact bl1FwuImageAuth_moves h
  | execute => exact bl1FwuImageExecute_moves h
  | resume => exact bl1FwuImageResume_moves h
  | secImageDone => exact bl1FwuSecImageDone_moves h
  | reset => exact bl1FwuImageReset_moves h
  | updateDone => cases h

end TrustedFirmware.Bl1
