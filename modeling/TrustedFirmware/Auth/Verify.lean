import TrustedFirmware.Auth.Types
import TrustedFirmware.Lib.Run

/-!
# The authentication module (`auth_mod.c`)

With the dispatch of `img_parser_mod.c` and the assertions of `crypto_mod.c`.

A call of `auth_mod_verify_img` returns its `int` and a list of **effects** in the order
in which they happen: the copies into the parameter buffers, the counters it raises and
the flag it sets. What an earlier part of the call has done stays done when a later part
fails, so a failed call may have effects too. A step of the system applies the effects
and writes the call into a log, from which the theorems read which call has written a
buffer last.
-/

namespace TrustedFirmware.Auth

open List Option

/-! ### State -/

/-- The parameter buffers, `auth_img_flags` and the platform's counters. A buffer is a
stretch of memory; how much of it belongs to a parameter is said by the descriptors. -/
structure State where
  bufs : Nat → Nat → UInt8
  authenticated : ImgId → Bool
  nvCtr : Cookie → Nat

/-- Cleared flags and zeroed buffers, with the counters that the platform holds. -/
def State.cleared (nvCtr : Cookie → Nat) : State := ⟨fun _ _ => 0, fun _ => false, nvCtr⟩

/-- The first `len` bytes of a buffer. -/
def State.readBuf (s : State) (buf len : Nat) : Bytes := (range len).map (s.bufs buf)

/-- What a call does to the state. -/
inductive Effect
  | copy (buf : Nat) (bytes : Bytes)
  | setNvCtr (cookie : Cookie) (nvCtr : Nat)
  | authenticated (imgId : ImgId)
  deriving DecidableEq, Repr

def State.apply (s : State) : Effect → State
  | .copy buf bytes =>
    { s with bufs := fun b i => if b = buf then bytes[i]?.getD (s.bufs b i) else s.bufs b i }
  | .setNvCtr cookie nvCtr => { s with nvCtr := Function.update s.nvCtr cookie nvCtr }
  | .authenticated imgId =>
    { s with authenticated := Function.update s.authenticated imgId true }

def State.applyAll (s : State) (es : List Effect) : State := es.foldl State.apply s

/-- What a part of a call returns: its `int`, and its effects. -/
structure Outcome where
  rc : Int
  effects : List Effect
  deriving DecidableEq, Repr

/-- A call of `auth_mod_verify_img`: the image, and how the platform answers when the
call asks for a counter or sets one. -/
structure Call where
  imgId : ImgId
  img : Bytes
  getNvCtrRc : Cookie → Int
  setNvCtrRc : Cookie → Int

/-! ### The image parser and the crypto module -/

/-- What can be got from a raw image: the image itself, the only thing that may be asked
for. -/
def rawView (img : Bytes) : View := fun typeDesc =>
  if typeDesc.type = .rawData then some (.ok ⟨img, img.length⟩) else none

/-- `img_parser_check_integrity` -/
def imgParserCheckIntegrity (P : Platform) (imgType : ImgType) (img : Bytes) :
    Option (Except Err View) :=
  if img.length = 0 then none
  else if imgType = .raw then some (.ok (rawView img))
  else do
    let lib ← P.parserLib imgType
    lib.checkIntegrity img

/-- `img_parser_get_auth_param` on the image that has been checked, and the bytes of the
parameter -/
def getAuthParam (view : View) (typeDesc : AuthParamTypeDesc) : Option (Except Err Bytes) := do
  match ← view typeDesc with
  | .error err => some (.error err)
  | .ok param => do
    let bytes ← param.content
    some (.ok bytes)

/-- `crypto_mod_verify_signature` -/
def cryptoModVerifySignature (P : Platform) (data sig alg pk : Bytes) : Option Int :=
  if data.length = 0 ∨ sig.length = 0 ∨ alg.length = 0 ∨ pk.length = 0 then none
  else some (P.crypto.verifySignature data sig alg pk)

/-- `crypto_mod_verify_hash` -/
def cryptoModVerifyHash (P : Platform) (data digestInfo : Bytes) : Option Int :=
  if data.length = 0 ∨ digestInfo.length = 0 then none
  else some (P.crypto.verifyHash data digestInfo)

/-! ### The authentication methods -/

/-- The loop of `auth_get_param` over the entries of `authenticated_data`. An entry without a
type is a null pointer, which `cmp_auth_param_type_desc` follows. -/
def findParam (typeDesc : AuthParamTypeDesc) :
    List (Option AuthParamDesc) → Option (Option AuthParamDesc)
  | [] => some none
  | none :: _ => none
  | some d :: ds => if typeDesc = d.typeDesc then some (some d) else findParam typeDesc ds

/-- `auth_get_param`: the buffer of the parameter in the parent, all of it -/
def authGetParam (typeDesc : AuthParamTypeDesc) (imgDesc : AuthImgDesc) (s : State) :
    Option (Except Err Bytes) :=
  match imgDesc.authenticatedData with
  | none => some (.error .one)
  | some ds => do
    match ← findParam typeDesc ds with
    | none => some (.error .one)
    | some d => some (.ok (s.readBuf d.buf d.len))

/-- The descriptor that `img_desc->parent` points to; `none` for a null pointer. -/
def parentDesc (cot : Cot) (imgDesc : AuthImgDesc) : Option AuthImgDesc :=
  imgDesc.parent.bind cot

/-- `auth_hash` -/
def authHash (P : Platform) (cot : Cot) (data hash : AuthParamTypeDesc) (imgDesc : AuthImgDesc)
    (view : View) (s : State) : Option Int := do
  let parent ← parentDesc cot imgDesc
  match ← authGetParam hash parent s with
  | .error err => some err.1
  | .ok hashDer =>
    match ← getAuthParam view data with
    | .error err => some err.1
    | .ok dataBytes => cryptoModVerifyHash P dataBytes hashDer

/-- The end of `auth_signature` for an image without a parent: the key is the platform's, or is
in the image and checked against the platform's hash of it. -/
def authRotpk (P : Platform) (pk : AuthParamTypeDesc) (view : View) (data sig alg : Bytes) :
    Option Int :=
  match P.getRotpkInfo pk.cookie with
  | .error err => some err.1
  | .ok info =>
    if info.isHash ∨ info.notDeployed then do
      match ← getAuthParam view pk with
      | .error err => some err.1
      | .ok key => do
        let rc ← cryptoModVerifySignature P data sig alg key
        if rc ≠ 0 then some rc
        -- "ROTPK is not deployed on platform. Skipping ROTPK verification."
        else if info.notDeployed then some rc
        else cryptoModVerifyHash P key info.key
    else cryptoModVerifySignature P data sig alg info.key

/-- `auth_signature` -/
def authSignature (P : Platform) (cot : Cot) (pk sig alg data : AuthParamTypeDesc)
    (imgDesc : AuthImgDesc) (view : View) (s : State) : Option Int := do
  match ← getAuthParam view data with
  | .error err => some err.1
  | .ok dataBytes =>
    match ← getAuthParam view sig with
    | .error err => some err.1
    | .ok sigBytes =>
      match ← getAuthParam view alg with
      | .error err => some err.1
      | .ok algBytes =>
        match imgDesc.parent with
        | none => authRotpk P pk view dataBytes sigBytes algBytes
        | some p => do
          let parent ← cot p
          match ← authGetParam pk parent s with
          | .error err => some err.1
          | .ok key => cryptoModVerifySignature P dataBytes sigBytes algBytes key

/-- The bytes of the counter: `cert_nv_ctr = (cert_nv_ctr << 8) | *p++`, `len` times -/
def nvCtrValue : Nat → Bytes → Nat → Option Nat
  | 0, _, acc => some acc
  | _ + 1, [], _ => none
  | len + 1, b :: bs, acc => nvCtrValue len bs ((acc * 2 ^ 8 + b.toNat) % 2 ^ 32)

/-- The parse of the DER integer in `auth_nvctr`, from the pointer on. It never looks at the
length of the parameter. -/
def parseNvCtr (p : Bytes) : Option (Except Err Nat) := do
  let tag ← p[0]?
  if tag ≠ 0x02 then some (.error .one)
  else do
    let len ← p[1]?
    -- `(*p & 0x80) || (len > 4)`
    if 4 < len.toNat then some (.error .one)
    else do
      let first ← p[2]?
      if 0x80 ≤ first.toNat then some (.error .one)
      else do
        let value ← nvCtrValue len.toNat (p.drop 2) 0
        some (.ok value)

/-- `auth_nvctr` -/
def authNvctr (certNvCtr platNvCtr : AuthParamTypeDesc) (view : View) (call : Call) (s : State) :
    Option Outcome := do
  match ← view certNvCtr with
  | .error err => some ⟨err.1, []⟩
  | .ok param =>
    match ← parseNvCtr param.ptr with
    | .error err => some ⟨err.1, []⟩
    | .ok certCtr =>
      if call.getNvCtrRc platNvCtr.cookie ≠ 0 then
        some ⟨call.getNvCtrRc platNvCtr.cookie, []⟩
      else if certCtr < s.nvCtr platNvCtr.cookie then
        some ⟨1, []⟩
      else if s.nvCtr platNvCtr.cookie < certCtr then
        if call.setNvCtrRc platNvCtr.cookie ≠ 0 then
          some ⟨call.setNvCtrRc platNvCtr.cookie, []⟩
        else some ⟨0, [.setNvCtr platNvCtr.cookie certCtr]⟩
      else some ⟨0, []⟩

/-- One turn of the loop over the methods. -/
def authMethod (P : Platform) (cot : Cot) (imgDesc : AuthImgDesc) (view : View) (call : Call)
    (s : State) : AuthMethod → Option Outcome
  | .none => some ⟨0, []⟩
  | .hash data hash => (authHash P cot data hash imgDesc view s).map (⟨·, []⟩)
  | .sig pk sig alg data => (authSignature P cot pk sig alg data imgDesc view s).map (⟨·, []⟩)
  | .nvCtr certNvCtr platNvCtr => authNvctr certNvCtr platNvCtr view call s

/-- The loop over the methods. -/
def authMethods (P : Platform) (cot : Cot) (imgDesc : AuthImgDesc) (view : View) (call : Call) :
    List AuthMethod → State → Option Outcome
  | [], _ => some ⟨0, []⟩
  | m :: ms, s => do
    let o ← authMethod P cot imgDesc view call s m
    if o.rc ≠ 0 then some o
    else do
      let o' ← authMethods P cot imgDesc view call ms (s.applyAll o.effects)
      some ⟨o'.rc, o.effects ++ o'.effects⟩

/-! ### `auth_mod_verify_img` -/

/-- The loop that extracts the parameters for the children. -/
def extractParams (view : View) : List (Option AuthParamDesc) → Option Outcome
  | [] => some ⟨0, []⟩
  | none :: ds => extractParams view ds
  | some d :: ds => do
    match ← getAuthParam view d.typeDesc with
    | .error err => some ⟨err.1, []⟩
    | .ok bytes =>
      -- Check parameter size
      if d.len < bytes.length then some ⟨1, []⟩
      else do
        let o ← extractParams view ds
        some ⟨o.rc, .copy d.buf bytes :: o.effects⟩

/-- The entries of `authenticated_data`, none for a null pointer. -/
def AuthImgDesc.entries (imgDesc : AuthImgDesc) : List (Option AuthParamDesc) :=
  imgDesc.authenticatedData.getD []

/-- `auth_mod_verify_img` -/
def authModVerifyImg (P : Platform) (cot : Cot) (call : Call) (s : State) : Option Outcome := do
  let imgDesc ← cot call.imgId
  match ← imgParserCheckIntegrity P imgDesc.imgType call.img with
  | .error err => some ⟨err.1, []⟩
  | .ok view =>
    match imgDesc.imgAuthMethods with
    | none => some ⟨1, []⟩
    | some methods => do
      let auth ← authMethods P cot imgDesc view call methods s
      if auth.rc ≠ 0 then some auth
      else do
        let params ← extractParams view imgDesc.entries
        if params.rc ≠ 0 then some ⟨params.rc, auth.effects ++ params.effects⟩
        else some ⟨0, auth.effects ++ params.effects ++ [.authenticated call.imgId]⟩

/-- `auth_mod_get_parent_id`: the parent, if it has to be authenticated first -/
def authModGetParentId (cot : Cot) (imgId : ImgId) (s : State) : Option (Option ImgId) := do
  let imgDesc ← cot imgId
  match imgDesc.parent with
  | none => some none
  | some p => if s.authenticated p then some none else some (some p)

/-! ### What the effects do -/

variable {s : State} {es : List Effect}

@[simp] theorem State.applyAll_nil : s.applyAll [] = s := rfl

@[simp] theorem State.applyAll_cons {e : Effect} :
    s.applyAll (e :: es) = (s.apply e).applyAll es := rfl

theorem State.applyAll_append {es' : List Effect} :
    s.applyAll (es ++ es') = (s.applyAll es).applyAll es' := foldl_append

theorem State.applyAll_bufs (h : ∀ e ∈ es, ∀ buf bytes, e ≠ .copy buf bytes) :
    (s.applyAll es).bufs = s.bufs := by
  induction es generalizing s with
  | nil => rfl
  | cons e es ih =>
    rw [applyAll_cons, ih fun e' he' => h e' (mem_cons_of_mem e he')]
    cases e with
    | copy buf bytes => exact absurd rfl (h _ mem_cons_self buf bytes)
    | setNvCtr | authenticated => rfl

theorem State.applyAll_nvCtr (h : ∀ e ∈ es, ∀ k v, e ≠ .setNvCtr k v) :
    (s.applyAll es).nvCtr = s.nvCtr := by
  induction es generalizing s with
  | nil => rfl
  | cons e es ih =>
    rw [applyAll_cons, ih fun e' he' => h e' (mem_cons_of_mem e he')]
    cases e with
    | copy => rfl
    | setNvCtr cookie nvCtr => exact absurd rfl (h _ mem_cons_self cookie nvCtr)
    | authenticated => rfl

/-! ### What the methods do -/

variable {P : Platform} {cot : Cot} {imgDesc : AuthImgDesc} {view : View} {call : Call} {s' : State}
  {o : Outcome}

/-- `auth_nvctr` fails without an effect, or accepts a counter that is not lower than the
platform's, which it then raises. -/
theorem authNvctr_cases {c p : AuthParamTypeDesc} (h : authNvctr c p view call s = some o) :
    (o.rc ≠ 0 ∧ o.effects = []) ∨
      ∃ param v, view c = some (.ok param) ∧ parseNvCtr param.ptr = some (.ok v) ∧ o.rc = 0 ∧
        ((v = s.nvCtr p.cookie ∧ o.effects = []) ∨
          (s.nvCtr p.cookie < v ∧ o.effects = [.setNvCtr p.cookie v])) := by
  obtain ⟨r, hview, h⟩ := bind_eq_some_iff.mp h
  cases r with
  | error err =>
    cases h
    exact .inl ⟨err.2, rfl⟩
  | ok param =>
    obtain ⟨r, hprs, h⟩ := bind_eq_some_iff.mp h
    cases r with
    | error err =>
      cases h
      exact .inl ⟨err.2, rfl⟩
    | ok v =>
      simp only at h
      split_ifs at h with hget hlow hhigh hset
      · cases h
        exact .inl ⟨hget, rfl⟩
      · cases h
        exact .inl ⟨by simp, rfl⟩
      · cases h
        exact .inl ⟨hset, rfl⟩
      · cases h
        exact .inr ⟨param, v, hview, hprs, rfl, .inr ⟨hhigh, rfl⟩⟩
      · cases h
        exact .inr ⟨param, v, hview, hprs, rfl, .inl ⟨by omega, rfl⟩⟩

theorem authGetParam_congr (h : s'.bufs = s.bufs) (t : AuthParamTypeDesc) (d : AuthImgDesc) :
    authGetParam t d s' = authGetParam t d s := by
  unfold authGetParam State.readBuf
  rw [h]

/-- The check that a hash or signature method makes has been passed. -/
def CheckOk (P : Platform) (cot : Cot) (imgDesc : AuthImgDesc) (view : View) (s : State) :
    AuthMethod → Prop
  | .hash data hash => authHash P cot data hash imgDesc view s = some 0
  | .sig pk sig alg data => authSignature P cot pk sig alg data imgDesc view s = some 0
  | .none | .nvCtr _ _ => True

theorem checkOk_congr (h : s'.bufs = s.bufs) (m : AuthMethod) :
    CheckOk P cot imgDesc view s' m ↔ CheckOk P cot imgDesc view s m := by
  cases m with
  | hash => simp only [CheckOk, authHash, authGetParam_congr h]
  | sig => simp only [CheckOk, authSignature, authGetParam_congr h]
  | none | nvCtr => exact Iff.rfl

variable {m : AuthMethod} {ms : List AuthMethod}

section

variable (h : authMethod P cot imgDesc view call s m = some o)
include h

/-- A method raises a counter at most, and the one that it names. -/
theorem authMethod_effects :
    o.effects = [] ∨ ∃ c p param v, m = .nvCtr c p ∧ view c = some (.ok param) ∧
      parseNvCtr param.ptr = some (.ok v) ∧ s.nvCtr p.cookie < v ∧
      o.effects = [.setNvCtr p.cookie v] := by
  cases m with
  | none =>
    cases h
    exact .inl rfl
  | hash | sig =>
    obtain ⟨rc, -, rfl⟩ := map_eq_some_iff.mp h
    exact .inl rfl
  | nvCtr c p =>
    obtain ⟨-, heff⟩ | ⟨param, v, hview, hprs, -, ⟨-, heff⟩ | ⟨hlt, heff⟩⟩ :=
      authNvctr_cases h
    · exact .inl heff
    · exact .inl heff
    · exact .inr ⟨c, p, param, v, rfl, hview, hprs, hlt, heff⟩

theorem authMethod_setNvCtr :
    ∀ e ∈ o.effects, ∃ k v, e = .setNvCtr k v := by
  intro e he
  rcases authMethod_effects h with heff | ⟨c, p, param, v, -, -, -, -, heff⟩
  · simp [heff] at he
  · rw [heff, mem_singleton] at he
    exact ⟨p.cookie, v, he⟩

theorem authMethod_copies :
    ∀ e ∈ o.effects, ∀ buf bytes, e ≠ .copy buf bytes := by
  intro e he buf bytes
  obtain ⟨k, v, rfl⟩ := authMethod_setNvCtr h e he
  exact Effect.noConfusion

theorem authMethod_checkOk (hrc : o.rc = 0) : CheckOk P cot imgDesc view s m := by
  cases m with
  | none => trivial
  | hash | sig =>
    obtain ⟨rc, hchk, rfl⟩ := map_eq_some_iff.mp h
    obtain rfl : rc = 0 := hrc
    exact hchk
  | nvCtr => trivial

end

/-- The loop over the methods: the first method fails, or it succeeds and the loop goes on. -/
theorem authMethods_cons (h : authMethods P cot imgDesc view call (m :: ms) s = some o) :
    ∃ o₁, authMethod P cot imgDesc view call s m = some o₁ ∧
      ((o₁.rc ≠ 0 ∧ o = o₁) ∨ (o₁.rc = 0 ∧ ∃ o₂,
        authMethods P cot imgDesc view call ms (s.applyAll o₁.effects) = some o₂ ∧
        o = ⟨o₂.rc, o₁.effects ++ o₂.effects⟩)) := by
  obtain ⟨o₁, ho₁, h⟩ := bind_eq_some_iff.mp h
  refine ⟨o₁, ho₁, ?_⟩
  split_ifs at h with hrc
  · exact .inl ⟨hrc, (some.inj h).symm⟩
  · obtain ⟨o₂, ho₂, h⟩ := bind_eq_some_iff.mp h
    exact .inr ⟨not_not.mp hrc, o₂, ho₂, (some.inj h).symm⟩

theorem authMethods_setNvCtr {ms : List AuthMethod} {s : State} {o : Outcome}
    (h : authMethods P cot imgDesc view call ms s = some o) :
    ∀ e ∈ o.effects, ∃ k v, e = .setNvCtr k v := by
  induction ms generalizing s o with
  | nil =>
    cases h
    simp
  | cons m ms ih =>
    obtain ⟨o₁, ho₁, ⟨-, rfl⟩ | ⟨-, o₂, ho₂, rfl⟩⟩ := authMethods_cons h
    · exact authMethod_setNvCtr ho₁
    · exact forall_mem_append.mpr ⟨authMethod_setNvCtr ho₁, ih ho₂⟩

theorem authMethods_copies (h : authMethods P cot imgDesc view call ms s = some o) :
    ∀ e ∈ o.effects, ∀ buf bytes, e ≠ .copy buf bytes := by
  intro e he buf bytes
  obtain ⟨k, v, rfl⟩ := authMethods_setNvCtr h e he
  exact Effect.noConfusion

/-- If the loop over the methods succeeds, every check has been passed. -/
theorem authMethods_checkOk {ms : List AuthMethod} {s : State} {o : Outcome}
    (h : authMethods P cot imgDesc view call ms s = some o) (hrc : o.rc = 0) :
    ∀ m ∈ ms, CheckOk P cot imgDesc view s m := by
  induction ms generalizing s o with
  | nil => simp
  | cons m ms ih =>
    obtain ⟨o₁, ho₁, ⟨hne, rfl⟩ | ⟨hrc₁, o₂, ho₂, rfl⟩⟩ := authMethods_cons h
    · exact absurd hrc hne
    · refine forall_mem_cons.mpr ⟨authMethod_checkOk ho₁ hrc₁, fun m' hm' => ?_⟩
      exact (checkOk_congr (State.applyAll_bufs (authMethod_copies ho₁)) m').mp (ih ho₂ hrc m' hm')

/-! ### What the extraction does -/

theorem extractParams_copies {ds : List (Option AuthParamDesc)} {o : Outcome}
    (h : extractParams view ds = some o) : ∀ e ∈ o.effects, ∃ d bytes, some d ∈ ds ∧
      getAuthParam view d.typeDesc = some (.ok bytes) ∧ bytes.length ≤ d.len ∧
      e = .copy d.buf bytes := by
  induction ds generalizing o with
  | nil =>
    cases h
    simp
  | cons d ds ih =>
    intro e he
    cases d with
    | none =>
      obtain ⟨d', bytes, hd', hrest⟩ := ih h e he
      exact ⟨d', bytes, mem_cons_of_mem _ hd', hrest⟩
    | some d =>
      obtain ⟨r, hr, h⟩ := bind_eq_some_iff.mp h
      cases r with
      | error =>
        cases h
        simp at he
      | ok bytes =>
        simp only at h
        split at h
        · cases h
          simp at he
        rename_i hlen
        obtain ⟨o', ho', h⟩ := bind_eq_some_iff.mp h
        cases h
        rcases mem_cons.mp he with rfl | he
        · exact ⟨d, bytes, mem_cons_self, hr, not_lt.mp hlen, rfl⟩
        · obtain ⟨d', bytes', hd', hrest⟩ := ih ho' e he
          exact ⟨d', bytes', mem_cons_of_mem _ hd', hrest⟩

/-! ### What a call does -/

/-- **Inversion of a call.** It fails before the methods, without an effect; or in the methods;
or while the parameters are extracted; or it succeeds. -/
theorem authModVerifyImg_cases {P : Platform} {cot : Cot} {call : Call} {s : State} {o : Outcome}
    (h : authModVerifyImg P cot call s = some o) :
    (o.rc ≠ 0 ∧ o.effects = []) ∨
      ∃ imgDesc view methods auth, cot call.imgId = some imgDesc ∧
        imgParserCheckIntegrity P imgDesc.imgType call.img = some (.ok view) ∧
        imgDesc.imgAuthMethods = some methods ∧
        authMethods P cot imgDesc view call methods s = some auth ∧
        ((auth.rc ≠ 0 ∧ o = auth) ∨
          (auth.rc = 0 ∧ ∃ params, extractParams view imgDesc.entries = some params ∧
            ((params.rc ≠ 0 ∧ o = ⟨params.rc, auth.effects ++ params.effects⟩) ∨ (params.rc = 0 ∧
                o = ⟨0, auth.effects ++ params.effects ++ [.authenticated call.imgId]⟩)))) := by
  obtain ⟨imgDesc, hdesc, h⟩ := bind_eq_some_iff.mp h
  obtain ⟨r, hview, h⟩ := bind_eq_some_iff.mp h
  cases r with
  | error err =>
    cases h
    exact .inl ⟨err.2, rfl⟩
  | ok view =>
    generalize hmeth : imgDesc.imgAuthMethods = v at h
    cases v with
    | none =>
      cases h
      exact .inl ⟨by simp, rfl⟩
    | some methods =>
      obtain ⟨auth, hauth, h⟩ := bind_eq_some_iff.mp h
      refine .inr ⟨imgDesc, view, methods, auth, hdesc, hview, hmeth, hauth, ?_⟩
      split at h
      · rename_i hrc
        exact .inl ⟨hrc, (some.inj h).symm⟩
      rename_i hrc
      obtain ⟨params, hpar, h⟩ := bind_eq_some_iff.mp h
      refine .inr ⟨not_not.mp hrc, params, hpar, ?_⟩
      split_ifs at h with hprc
      · exact .inl ⟨hprc, (some.inj h).symm⟩
      · exact .inr ⟨not_not.mp hprc, (some.inj h).symm⟩

/-! ### Sequences of calls -/

/-- A call that has returned. -/
structure Entry where
  call : Call
  outcome : Outcome

/-- The state, and the calls so far, the latest first. -/
structure Sys where
  state : State
  log : List Entry

def Sys.boot (nvCtr : Cookie → Nat) : Sys := ⟨.cleared nvCtr, []⟩

/-- One call. -/
def step (P : Platform) (cot : Cot) (u : Sys) (call : Call) : Option Sys := do
  let o ← authModVerifyImg P cot call u.state
  some ⟨u.state.applyAll o.effects, ⟨call, o⟩ :: u.log⟩

end TrustedFirmware.Auth
