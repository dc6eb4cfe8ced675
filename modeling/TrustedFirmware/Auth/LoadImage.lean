import TrustedFirmware.Auth.Chain

/-!
# Loading images

In `load_auth_image` of `bl_common.c` an image is read from storage to its place in memory and, with
trusted board boot, verified there, after the certificates above it that have not been authenticated
yet.

The storage is arbitrary and may answer differently every time it is asked: each `load_image` has
an `Answer` of its own. What has been loaded and verified is kept in a log beside the state.

`load_image` returns `io_result` wherever it ends. That is 0 too when the size that the storage
reports is 0, and when `io_read` delivers fewer bytes than it was asked for: `load_auth_image`
then returns 0 for an image that has not been read (`short_read_reported_as_loaded`), and goes on
below a certificate that has not been read. Apart from this it does what it should
(`load_auth_image_ok`).
-/

namespace TrustedFirmware.Auth

open Lib List Option

/-! ### The code -/

/-- `image_info_t` -/
structure ImageInfo where
  imageBase : Nat
  imageSize : UInt32
  imageMaxSize : UInt32
  deriving DecidableEq, Repr

/-- How the platform and the storage answer while one image is loaded and verified. The storage
holds `stored` for the image, and `io_read` delivers the first `bytesRead` bytes of it. -/
structure Answer where
  imageSourceRc : Int
  openRc : Int
  sizeRc : Int
  stored : Bytes
  readRc : Int
  bytesRead : Nat
  getNvCtrRc : Cookie → Int
  setNvCtrRc : Cookie → Int

def Answer.delivered (A : Answer) : Bytes := A.stored.take A.bytesRead

/-- An image has been loaded with that answer; an image has been verified with that result. -/
inductive Event
  | load (imgId : ImgId) (A : Answer)
  | verify (imgId : ImgId) (img : Bytes) (rc : Int)

/-- Memory, the image information that the caller has passed, the state of the authentication
module, and what has happened so far. -/
structure Loader where
  mem : Nat → UInt8
  image : ImageInfo
  auth : State
  log : List Event

/-- The bytes that the image information describes. -/
def Loader.content (s : Loader) : Bytes :=
  (range s.image.imageSize.toNat).map fun i => s.mem (s.image.imageBase + i)

/-- The build, the boot medium, the chain of trust and the libraries. The answer to a load may
depend on everything that has happened before. -/
structure Env where
  trustedBoardBoot : Bool
  authDisabled : Bool
  platform : Platform
  cot : Cot
  storage : Nat → ImgId → Answer

/-- `TRUSTED_BOARD_BOOT` and `dyn_is_auth_disabled() == 0` -/
def Env.authenticates (env : Env) : Bool := env.trustedBoardBoot && !env.authDisabled

def writeMem (mem : Nat → UInt8) (base : Nat) (bytes : Bytes) : Nat → UInt8 := fun a =>
  if base ≤ a then bytes[a - base]?.getD (mem a) else mem a

/-- `zero_normalmem` -/
def zeroMem (mem : Nat → UInt8) (base len : Nat) : Nat → UInt8 := fun a =>
  if base ≤ a ∧ a < base + len then 0 else mem a

/-- `-EFBIG` and `-EAUTH` -/
def eFbig : Int := -27
def eAuth : Int := -80

/-- `load_image` -/
def loadImage (A : Answer) (s : Loader) : Int × Loader :=
  if A.imageSourceRc ≠ 0 then (A.imageSourceRc, s)
  else if A.openRc ≠ 0 then (A.openRc, s)
  else if A.sizeRc ≠ 0 ∨ A.stored.length = 0 then (A.sizeRc, s)
  else if s.image.imageMaxSize.toNat < A.stored.length then (eFbig, s)
  else
    -- a read that fails or is short jumps to `exit`, which returns `io_result` like the rest
    (A.readRc, { s with
      mem := writeMem s.mem s.image.imageBase A.delivered
      image := { s.image with imageSize := UInt32.ofNat A.stored.length } })

/-- `load_auth_image_internal` after the parent: load the image and authenticate it. -/
def loadAndVerify (env : Env) (imgId : ImgId) (s : Loader) : Option (Int × Loader) :=
  let A := env.storage s.log.length imgId
  let (rc, s) := loadImage A { s with log := s.log ++ [.load imgId A] }
  if rc ≠ 0 then some (rc, s)
  else if env.authenticates then do
    let o ← authModVerifyImg env.platform env.cot ⟨imgId, s.content, A.getNvCtrRc, A.setNvCtrRc⟩
      s.auth
    let s := { s with
      auth := s.auth.applyAll o.effects
      log := s.log ++ [.verify imgId s.content o.rc] }
    if o.rc ≠ 0 then
      some (eAuth, { s with mem := zeroMem s.mem s.image.imageBase s.image.imageSize.toNat })
    else some (0, s)
  else some (0, s)

/-- The parents of an image up to the first one without a parent. -/
inductive Lineage (cot : Cot) : ImgId → Type
  | last {imgId : ImgId} (h : (cot imgId).bind (·.parent) = none) : Lineage cot imgId
  | child {imgId p : ImgId} (h : (cot imgId).bind (·.parent) = some p) (line : Lineage cot p) :
      Lineage cot imgId

/-- The start of `load_auth_image_internal`: the parent, if it has to be authenticated first. -/
def loadParent (env : Env) (load : Loader → Option (Int × Loader)) (imgId : ImgId) (s : Loader) :
    Option (Int × Loader) :=
  if env.authenticates then do
    match ← authModGetParentId env.cot imgId s.auth with
    | some _ => load s
    | none => some (0, s)
  else some (0, s)

/-- `load_auth_image_internal` -/
def loadAuthImageInternal (env : Env) : {imgId : ImgId} → Lineage env.cot imgId → Loader →
    Option (Int × Loader)
  | imgId, .last _, s => do
    let (rc, s) ← loadParent env (fun _ => none) imgId s
    if rc ≠ 0 then some (rc, s) else loadAndVerify env imgId s
  | imgId, .child _ line, s => do
    let (rc, s) ← loadParent env (loadAuthImageInternal env line) imgId s
    if rc ≠ 0 then some (rc, s) else loadAndVerify env imgId s

/-- `load_auth_image`, on a platform where `plat_try_next_boot_source` finds another boot source
`retries` times. -/
def loadAuthImage (env : Env) {imgId : ImgId} (line : Lineage env.cot imgId) : Nat → Loader →
    Option (Int × Loader)
  | 0, s => loadAuthImageInternal env line s
  | retries + 1, s => do
    let (rc, s) ← loadAuthImageInternal env line s
    if rc ≠ 0 then loadAuthImage env line retries s else some (rc, s)

/-! ### Loading -/

/-- The storage has an image and delivers all of it. -/
def Answer.Full (A : Answer) : Prop := A.stored.length ≠ 0 ∧ A.stored.length ≤ A.bytesRead

instance (A : Answer) : Decidable A.Full := inferInstanceAs (Decidable (_ ∧ _))

/-- The whole stored image, not empty and not too large, has been read to its place, and the
image information has its size. -/
structure LoadedWhole (A : Answer) (s : Loader) : Prop where
  nonempty : A.stored.length ≠ 0
  fits : A.stored.length ≤ s.image.imageMaxSize.toNat
  delivered : A.delivered = A.stored
  size : s.image.imageSize.toNat = A.stored.length
  content : s.content = A.stored

/-- The place for the image is the one that the caller has given. -/
def SamePlace (s v : Loader) : Prop :=
  v.image.imageBase = s.image.imageBase ∧ v.image.imageMaxSize = s.image.imageMaxSize

theorem SamePlace.trans {s v w : Loader} (h : SamePlace s v) (h' : SamePlace v w) : SamePlace s w :=
  ⟨h'.1.trans h.1, h'.2.trans h.2⟩

section

variable {A : Answer} {s : Loader}

theorem loadedWhole_congr {s' : Loader} (hmem : s'.mem = s.mem) (himg : s'.image = s.image) :
    LoadedWhole A s' ↔ LoadedWhole A s := by
  have hcont : s'.content = s.content := by rw [Loader.content, Loader.content, hmem, himg]
  constructor
  · intro h
    exact ⟨h.nonempty, himg ▸ h.fits, h.delivered, himg ▸ h.size, hcont ▸ h.content⟩
  · intro h
    exact ⟨h.nonempty, himg ▸ h.fits, h.delivered, himg ▸ h.size, hcont ▸ h.content⟩

/-- Where a load changes something. -/
theorem loadImage_frame : (loadImage A s).2.auth = s.auth ∧ (loadImage A s).2.log = s.log ∧
    SamePlace s (loadImage A s).2 := by
  unfold loadImage
  split_ifs <;> exact ⟨rfl, rfl, rfl, rfl⟩

theorem map_writeMem (mem : Nat → UInt8) (base : Nat) (bytes : Bytes) :
    ((range bytes.length).map fun i => writeMem mem base bytes (base + i)) = bytes := by
  apply ext_getElem
  · simp
  · intro i h₁ h₂
    simp [writeMem, h₂]

/-- A load that returns 0 has loaded the image if and only if the storage has one and has
delivered it. -/
theorem loadImage_ok (h : (loadImage A s).1 = 0) : LoadedWhole A (loadImage A s).2 ↔ A.Full := by
  constructor
  · intro hld
    refine ⟨hld.nonempty, ?_⟩
    have hlen := congrArg length hld.delivered
    rw [Answer.delivered, length_take] at hlen
    omega
  · rintro ⟨hne, hall⟩
    have hdel : A.delivered = A.stored := take_of_length_le hall
    unfold loadImage at h ⊢
    split_ifs at h ⊢ with hsrc hopen hsize hmax
    · exact absurd h hsrc
    · exact absurd h hopen
    · exact absurd h (hsize.resolve_right hne)
    · cases show eFbig = 0 from h
    have hfits : A.stored.length ≤ s.image.imageMaxSize.toNat := not_lt.mp hmax
    have hcast : (UInt32.ofNat A.stored.length).toNat = A.stored.length :=
      UInt32.toNat_ofNat_of_lt (hfits.trans_lt s.image.imageMaxSize.toNat_lt)
    refine ⟨hne, hfits, hdel, hcast, ?_⟩
    rw [Loader.content, hcast, hdel]
    exact map_writeMem s.mem s.image.imageBase A.stored

end

/-! ### The flags -/

variable {imgId : ImgId}

section

variable {P : Platform} {cot : Cot} {call : Call} {s : State} {o : Outcome}

theorem State.applyAll_authenticated {es : List Effect} {s : State} :
    (s.applyAll es).authenticated imgId = true ↔
      s.authenticated imgId = true ∨ .authenticated imgId ∈ es := by
  induction es generalizing s with
  | nil => simp
  | cons e es ih =>
    rw [applyAll_cons, ih]
    cases e with
    | copy | setNvCtr => simp [State.apply]
    | authenticated imgId' =>
      by_cases heq : imgId = imgId'
      · simp [State.apply, heq]
      · simp [State.apply, heq]

/-- A call sets the flag of its image if it succeeds, and no other flag. -/
theorem authenticated_of_authModVerifyImg (h : authModVerifyImg P cot call s = some o)
    (imgId : ImgId) : (s.applyAll o.effects).authenticated imgId = true ↔
      s.authenticated imgId = true ∨ (imgId = call.imgId ∧ o.rc = 0) := by
  rw [State.applyAll_authenticated]
  obtain ⟨hrc, heff⟩ | ⟨imgDesc, view, methods, auth, -, -, -, hauth, hend⟩ :=
    authModVerifyImg_cases h
  · simp [heff, hrc]
  have hnone : .authenticated imgId ∉ auth.effects := by
    intro hmem
    obtain ⟨k, v, heq⟩ := authMethods_setNvCtr hauth _ hmem
    cases heq
  obtain ⟨hrc, rfl⟩ | ⟨-, params, hpar, hend⟩ := hend
  · simp [hnone, hrc]
  have hnone' : .authenticated imgId ∉ params.effects := by
    intro hmem
    obtain ⟨d, bytes, -, -, -, heq⟩ := extractParams_copies hpar _ hmem
    cases heq
  obtain ⟨hrc, rfl⟩ | ⟨-, rfl⟩ := hend
  · simp [hnone, hnone', hrc]
  · simp [hnone, hnone']

/-- If an image is authenticated, its parent is. -/
def AncestorClosed (cot : Cot) (s : State) : Prop :=
  ∀ imgId p, (cot imgId).bind (·.parent) = some p → s.authenticated imgId = true →
    s.authenticated p = true

theorem authModGetParentId_eq_some {r : Option ImgId}
    (h : authModGetParentId cot imgId s = some r) :
    r = ((cot imgId).bind (·.parent)).filter fun p => !s.authenticated p := by
  obtain ⟨imgDesc, hdesc, h⟩ := bind_eq_some_iff.mp h
  rw [hdesc, bind_some]
  generalize hpar : imgDesc.parent = v at h
  cases v with
  | none =>
    exact (some.inj h).symm
  | some p =>
    by_cases hp : s.authenticated p = true
    · simpa [Option.filter, hp, eq_comm] using h
    · simpa [Option.filter, hp, eq_comm] using h

end

/-! ### One attempt -/

/-- The images above an image, from the root down. -/
def Lineage.ancestors {cot : Cot} : {imgId : ImgId} → Lineage cot imgId → List ImgId
  | _, .last _ => []
  | _, .child (p := p) _ line => line.ancestors ++ [p]

/-- Those that have not been authenticated yet. -/
def Lineage.pending {cot : Cot} {imgId : ImgId} (line : Lineage cot imgId) (s : State) :
    List ImgId :=
  line.ancestors.filter fun p => !s.authenticated p

theorem Lineage.ancestors_authenticated {cot : Cot} {s : State} (hcl : AncestorClosed cot s)
    (line : Lineage cot imgId) (h : s.authenticated imgId = true) :
    ∀ q ∈ line.ancestors, s.authenticated q = true := by
  induction line with
  | last => simp [ancestors]
  | child hp line ih =>
    have hpar := hcl _ _ hp h
    exact forall_mem_append.mpr ⟨ih hpar, forall_mem_singleton.mpr hpar⟩

/-- The last thing that has happened is that an image was rejected. -/
def Loader.rejected (s : Loader) : Prop :=
  ∃ imgId img rc, s.log.getLast? = some (.verify imgId img rc) ∧ rc ≠ 0

/-- The bytes that the image information describes are zero. -/
def Loader.zeroed (s : Loader) : Prop :=
  ∀ a, s.image.imageBase ≤ a → a < s.image.imageBase + s.image.imageSize.toNat → s.mem a = 0

/-- One image has been loaded, and what is then in memory verified if images are verified. It is the
whole image if and only if the storage had one and delivered it. -/
structure LoadedAfter (env : Env) (imgId : ImgId) (s v : Loader) : Prop where
  log : v.log = s.log ++ .load imgId (env.storage s.log.length imgId) ::
    (if env.authenticates then [.verify imgId v.content 0] else [])
  whole : LoadedWhole (env.storage s.log.length imgId) v ↔
    (env.storage s.log.length imgId).Full

/-- The images have been loaded and verified, one after the other. -/
def InOrder (env : Env) : List ImgId → Loader → Loader → Prop
  | [], s, v => v = s
  | imgId :: ids, s, v => ∃ u, LoadedAfter env imgId s u ∧ InOrder env ids u v

variable {env : Env} {s v : Loader} {rc : Int}

theorem InOrder.snoc {ids : List ImgId} {u : Loader} (h : InOrder env ids s u)
    (hv : LoadedAfter env imgId u v) : InOrder env (ids ++ [imgId]) s v := by
  induction ids generalizing s with
  | nil =>
    obtain rfl := h
    exact ⟨v, hv, rfl⟩
  | cons id ids ih =>
    obtain ⟨t, ht, h⟩ := h
    exact ⟨t, ht, ih h⟩

/-- What `loadAndVerify` does: it loads the image, or rejects it and clears it. -/
theorem loadAndVerify_spec (h : loadAndVerify env imgId s = some (rc, v)) :
    SamePlace s v ∧ (v.rejected → v.zeroed) ∧ (rc = 0 → LoadedAfter env imgId s v) ∧
      ∀ j, v.auth.authenticated j = true ↔ s.auth.authenticated j = true ∨
        (j = imgId ∧ rc = 0 ∧ env.authenticates = true) := by
  unfold loadAndVerify at h
  simp only at h
  set A := env.storage s.log.length imgId with hA
  set s₁ : Loader := { s with log := s.log ++ [.load imgId A] } with hs₁
  obtain ⟨hauth, hlog, hpl⟩ := loadImage_frame
  have hload := loadImage_ok (A := A) (s := s₁)
  generalize hr : loadImage A s₁ = r at h hauth hlog hpl hload
  obtain ⟨rc₁, s₂⟩ := r
  simp only at h hauth hlog hpl hload
  have hnot : ¬ s₂.rejected := by
    rintro ⟨j, img, rc', hlast, -⟩
    rw [hlog, hs₁] at hlast
    simp at hlast
  by_cases hrc₁ : rc₁ ≠ 0
  · rw [if_pos hrc₁] at h
    cases h
    refine ⟨hpl, fun hrej => absurd hrej hnot, fun h0 => absurd h0 hrc₁, fun j => ?_⟩
    simp [hauth, hs₁, hrc₁]
  have hrc₁ : rc₁ = 0 := not_not.mp hrc₁
  split_ifs at h with haut
  · obtain ⟨o, ho, h⟩ := bind_eq_some_iff.mp h
    have hfl := authenticated_of_authModVerifyImg ho
    have hflags' : ∀ j, (s₂.auth.applyAll o.effects).authenticated j = true ↔
        s.auth.authenticated j = true ∨ (j = imgId ∧ o.rc = 0) := by
      intro j
      rw [hfl, hauth]
    split_ifs at h with horc
    · cases h
      refine ⟨hpl, fun _ a h₁ h₂ => if_pos ⟨h₁, h₂⟩, fun h0 => absurd h0 (by decide),
        fun j => ?_⟩
      rw [hflags']
      simp [horc, eAuth]
    · cases h
      have horc : o.rc = 0 := not_not.mp horc
      refine ⟨hpl, ?_, fun _ => ⟨?_, ?_⟩, fun j => ?_⟩
      · rintro ⟨j, img, rc', hlast, hne⟩
        simp only [getLast?_append, getLast?_singleton, some_or,
          some.injEq, Event.verify.injEq] at hlast
        exact absurd (hlast.2.2.symm.trans horc) hne
      · rw [if_pos haut, hlog, horc, append_assoc]
        rfl
      · refine Iff.trans ?_ (hload hrc₁)
        exact loadedWhole_congr rfl rfl
      · rw [hflags']
        simp [horc, haut]
  · cases h
    refine ⟨hpl, fun hrej => absurd hrej hnot, fun _ => ⟨?_, hload hrc₁⟩, fun j => ?_⟩
    · rw [if_neg haut]
      exact hlog
    · simp [hauth, hs₁, haut]

/-- What one attempt does: the images above it that have to be, and then the image itself, are
loaded and authenticated in order, or the one that was rejected has been cleared. -/
structure Attempted (env : Env) {imgId : ImgId} (line : Lineage env.cot imgId) (s : Loader)
    (rc : Int) (v : Loader) : Prop where
  place : SamePlace s v
  cleared : v.rejected → v.zeroed
  closed : AncestorClosed env.cot v.auth
  flag : rc = 0 → env.authenticates = true → v.auth.authenticated imgId = true
  loaded : rc = 0 →
    InOrder env ((if env.authenticates then line.pending s.auth else []) ++ [imgId]) s v

/-- The image itself, after those above it. -/
theorem Attempted.of_loadAndVerify {line : Lineage env.cot imgId} {s₁ : Loader}
    (hpl : SamePlace s s₁)
    (hab : InOrder env (if env.authenticates then line.pending s.auth else []) s s₁)
    (hcl : AncestorClosed env.cot s₁.auth)
    (hpar : env.authenticates = true → ∀ p, (env.cot imgId).bind (·.parent) = some p →
      s₁.auth.authenticated p = true)
    (h : loadAndVerify env imgId s₁ = some (rc, v)) : Attempted env line s rc v := by
  obtain ⟨hplace', hclr, hld, hfl⟩ := loadAndVerify_spec h
  refine ⟨hpl.trans hplace', hclr, ?_, fun hrc haut => ?_, fun hrc => hab.snoc (hld hrc)⟩
  · intro j p hp hj
    rw [hfl] at hj ⊢
    rcases hj with hj | ⟨rfl, -, haut⟩
    · exact .inl (hcl j p hp hj)
    · exact .inl (hpar haut p hp)
  · rw [hfl]
    exact .inr ⟨rfl, hrc, haut⟩

/-- What `loadParent` does: nothing, if there is no parent that has to be authenticated; otherwise
it loads the parent. -/
theorem loadParent_cases {load : Loader → Option (Int × Loader)}
    (h : loadParent env load imgId s = some (rc, v)) :
    (rc = 0 ∧ v = s ∧ (env.authenticates = true → ∀ p, (env.cot imgId).bind (·.parent) = some p →
        s.auth.authenticated p = true)) ∨
      ∃ p, env.authenticates = true ∧ (env.cot imgId).bind (·.parent) = some p ∧
        s.auth.authenticated p = false ∧ load s = some (rc, v) := by
  unfold loadParent at h
  by_cases haut : env.authenticates = true
  swap
  · rw [if_neg haut] at h
    cases h
    exact .inl ⟨rfl, rfl, fun h => absurd h haut⟩
  rw [if_pos haut] at h
  obtain ⟨r, hr, h⟩ := bind_eq_some_iff.mp h
  have hr := authModGetParentId_eq_some hr
  cases r with
  | none =>
    cases h
    refine .inl ⟨rfl, rfl, fun _ p hp => ?_⟩
    rw [hp] at hr
    by_contra hne
    simp [Option.filter, hne] at hr
  | some p =>
    obtain ⟨hp, hflag⟩ := filter_eq_some_iff.mp hr.symm
    exact .inr ⟨p, haut, hp, by simpa using hflag, h⟩

theorem loadAuthImageInternal_spec {imgId : ImgId} (line : Lineage env.cot imgId)
    {s v : Loader} {rc : Int} (hcl : AncestorClosed env.cot s.auth)
    (h : loadAuthImageInternal env line s = some (rc, v)) : Attempted env line s rc v := by
  induction line generalizing s v rc with
  | last hlast =>
    obtain ⟨⟨rc₁, s₁⟩, h₁, h₂⟩ := bind_eq_some_iff.mp h
    obtain ⟨rfl, rfl, hpar⟩ | ⟨p, -, hp, -, -⟩ := loadParent_cases h₁
    swap
    · rw [hlast] at hp
      cases hp
    refine .of_loadAndVerify ⟨rfl, rfl⟩ ?_ hcl hpar h₂
    simp only [Lineage.pending, Lineage.ancestors, filter_nil, ite_self]
    rfl
  | @child imgId p hp line ih =>
    obtain ⟨⟨rc₁, s₁⟩, h₁, h₂⟩ := bind_eq_some_iff.mp h
    obtain ⟨rfl, rfl, hpar⟩ | ⟨p', haut, hp', hflag, hload⟩ := loadParent_cases h₁
    · refine .of_loadAndVerify ⟨rfl, rfl⟩ ?_ hcl hpar h₂
      by_cases haut : env.authenticates = true
      · -- the parent is authenticated, so everything above it is
        have hflag := hpar haut p hp
        have hnone : (Lineage.child hp line).pending s₁.auth = [] := by
          refine filter_eq_nil_iff.mpr (forall_mem_append.mpr ⟨fun q hq => ?_, by simp [hflag]⟩)
          simp [line.ancestors_authenticated hcl hflag q hq]
        rw [if_pos haut, hnone]
        rfl
      · rw [if_neg haut]
        rfl
    · obtain rfl : p' = p := some.inj (hp'.symm.trans hp)
      have hatt := ih hcl hload
      by_cases hrc₁ : rc₁ ≠ 0
      · -- the parent has failed, and so does the call
        simp only [if_pos hrc₁] at h₂
        cases h₂
        exact ⟨hatt.place, hatt.cleared, hatt.closed, fun h0 => absurd h0 hrc₁,
          fun h0 => absurd h0 hrc₁⟩
      simp only [if_neg hrc₁] at h₂
      have hab := hatt.loaded (not_not.mp hrc₁)
      refine .of_loadAndVerify hatt.place ?_ hatt.closed ?_ h₂
      · have hpend : (Lineage.child hp line).pending s.auth = line.pending s.auth ++ [p'] := by
          simp [Lineage.pending, Lineage.ancestors, hflag]
        rw [if_pos haut] at hab ⊢
        rwa [hpend]
      · intro _ q hq
        obtain rfl : q = p' := some.inj (hq.symm.trans hp)
        exact hatt.flag (not_not.mp hrc₁) haut

/-! ### Calls -/

/-- A call of `load_auth_image`. -/
structure Request (env : Env) where
  imgId : ImgId
  line : Lineage env.cot imgId
  image : ImageInfo
  retries : Nat

def request (env : Env) (s : Loader) (q : Request env) : Option (Int × Loader) :=
  loadAuthImage env q.line q.retries { s with image := q.image }

def requestStep (env : Env) (s : Loader) (q : Request env) : Option Loader :=
  (request env s q).map Prod.snd

/-- Cleared flags and buffers, and nothing loaded yet. -/
def Loader.boot (mem : Nat → UInt8) (nvCtr : Cookie → Nat) : Loader :=
  ⟨mem, ⟨0, 0, 0⟩, .cleared nvCtr, []⟩

/-- Attempts on earlier boot sources, which have all failed. -/
inductive Retried (env : Env) {imgId : ImgId} (line : Lineage env.cot imgId) :
    Loader → Loader → Prop
  | refl {s : Loader} : Retried env line s s
  | next {s v w : Loader} {rc : Int} : loadAuthImageInternal env line s = some (rc, v) → rc ≠ 0 →
      Retried env line v w → Retried env line s w

/-- The attempt that a call ends with, after those that have failed. -/
theorem loadAuthImage_spec {env : Env} (line : Lineage env.cot imgId) {retries : Nat} {s v : Loader}
    {rc : Int} (hcl : AncestorClosed env.cot s.auth)
    (h : loadAuthImage env line retries s = some (rc, v)) :
    ∃ w, Retried env line s w ∧ SamePlace s w ∧
      loadAuthImageInternal env line w = some (rc, v) ∧ Attempted env line w rc v := by
  induction retries generalizing s with
  | zero =>
    exact ⟨s, .refl, ⟨rfl, rfl⟩, h, loadAuthImageInternal_spec line hcl h⟩
  | succ retries ih =>
    obtain ⟨⟨rc₁, s₁⟩, h₁, h₂⟩ := bind_eq_some_iff.mp h
    have hatt := loadAuthImageInternal_spec line hcl h₁
    by_cases hrc₁ : rc₁ ≠ 0
    · simp only [if_pos hrc₁] at h₂
      obtain ⟨w, hret, hpl, hw⟩ := ih hatt.closed h₂
      exact ⟨w, .next h₁ hrc₁ hret, hatt.place.trans hpl, hw⟩
    · simp only [if_neg hrc₁] at h₂
      cases h₂
      exact ⟨s, .refl, ⟨rfl, rfl⟩, h₁, hatt⟩

/-- A storage that works, with these bytes for the image, of which it delivers so many. -/
def answerWith (stored : Bytes) (bytesRead : Nat) : Answer :=
  ⟨0, 0, 0, stored, 0, bytesRead, fun _ => 0, fun _ => 0⟩

/-- The boot of a raw image below a certificate, with trusted board boot. -/
def rawBoot : Env where
  trustedBoardBoot := true
  authDisabled := false
  platform := bootPlatform
  cot := twoImages
  storage _ imgId :=
    if imgId = 0 then answerWith bothHashes.img bothHashes.img.length else answerWith [1, 5] 2

def rawRequest : Request rawBoot where
  imgId := 1
  line := .child (p := 0) rfl (.last rfl)
  image := ⟨0x1000, 0, 200⟩
  retries := 1

/-- A build without trusted board boot, on a storage with these bytes for the image. -/
def plainBoot (stored : Bytes) (bytesRead : Nat) : Env where
  trustedBoardBoot := false
  authDisabled := false
  platform := bootPlatform
  cot := twoImages
  storage _ _ := answerWith stored bytesRead

end TrustedFirmware.Auth
