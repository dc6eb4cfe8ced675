import TrustedFirmware.Auth.Chain

/-!
# What the verdict on a child depends on

`auth_mod_verify_img` reads of its state only the buffers of the parent and the counters that the
child names (`authModVerifyImg_congr`). If the parameters of the parent fill their buffers, what it
reads there is what the parser has extracted from the parent, and two histories that end with the
same parent lead to the same verdict (`child_verdict_of_parent`).

A shorter parameter does not fill its buffer, and `auth_get_param` hands out the buffer: the bytes
behind the parameter are those of an earlier certificate, and `verify_hash` reads on into them
(`leftover_digest_accepted`).
-/

namespace TrustedFirmware.Auth

open Lib List Option State

/-! ### What a call reads of the state -/

variable {P : Platform} {cot : Cot} {imgDesc pdesc : AuthImgDesc} {view : View} {call : Call}
  {s s' : State} {ms : List AuthMethod} {m : AuthMethod}

/-- The states hold the same in the buffers that the image is checked against, and the same in
the counters that the methods name. -/
structure SameInputs (cot : Cot) (imgDesc : AuthImgDesc) (methods : List AuthMethod)
    (s s' : State) : Prop where
  keys : ∀ pdesc, parentDesc cot imgDesc = some pdesc →
    ∀ t, authGetParam t pdesc s = authGetParam t pdesc s'
  counters : ∀ c p, .nvCtr c p ∈ methods → s.nvCtr p.cookie = s'.nvCtr p.cookie

theorem State.applyAll_nvCtr_congr {k : Cookie} {es : List Effect} {s s' : State}
    (h : s.nvCtr k = s'.nvCtr k) : (s.applyAll es).nvCtr k = (s'.applyAll es).nvCtr k := by
  induction es generalizing s s' with
  | nil => exact h
  | cons e es ih =>
    apply ih
    cases e with
    | copy => exact h
    | setNvCtr cookie =>
      by_cases hk : k = cookie
      · simp [apply, hk]
      · simpa [apply, hk] using h
    | authenticated => exact h

theorem authMethod_congr (h : SameInputs cot imgDesc (m :: ms) s s') :
    authMethod P cot imgDesc view call s m = authMethod P cot imgDesc view call s' m := by
  cases m with
  | none => rfl
  | hash data hash =>
    simp only [authMethod, authHash]
    cases hpar : parentDesc cot imgDesc with
    | none => rfl
    | some pdesc => simp only [bind_eq_bind, bind_some, h.keys pdesc hpar hash]
  | sig pk =>
    cases hpar : imgDesc.parent with
    | none => simp only [authMethod, authSignature, hpar]
    | some p =>
      cases hpd : cot p with
      | none => simp only [authMethod, authSignature, hpar, hpd, bind_eq_bind,
          bind_none]
      | some pdesc =>
        have hkeys := h.keys pdesc (by rw [parentDesc, hpar]; exact hpd) pk
        simp only [authMethod, authSignature, hpar, hpd, bind_eq_bind, bind_some, hkeys]
  | nvCtr c p =>
    simp [authMethod, authNvctr, h.counters c p mem_cons_self]

theorem SameInputs.tail {o : Outcome} (h : SameInputs cot imgDesc (m :: ms) s s')
    (ho : authMethod P cot imgDesc view call s m = some o) :
    SameInputs cot imgDesc ms (s.applyAll o.effects) (s'.applyAll o.effects) where
  keys pdesc hpd t := by
    have hcop := authMethod_copies ho
    rw [authGetParam_congr (applyAll_bufs hcop), authGetParam_congr (applyAll_bufs hcop)]
    exact h.keys pdesc hpd t
  counters c p hmem := applyAll_nvCtr_congr (h.counters c p (mem_cons_of_mem m hmem))

theorem authMethods_congr {ms : List AuthMethod} {s s' : State}
    (h : SameInputs cot imgDesc ms s s') :
    authMethods P cot imgDesc view call ms s = authMethods P cot imgDesc view call ms s' := by
  induction ms generalizing s s' with
  | nil => rfl
  | cons m ms ih =>
    unfold authMethods
    rw [← authMethod_congr h]
    cases ho : authMethod P cot imgDesc view call s m with
    | none => rfl
    | some => simp only [bind_eq_bind, bind_some, ih (h.tail ho)]

/-- The verdict on an image and the effects of the call depend on these inputs only. -/
theorem authModVerifyImg_congr (hdesc : cot call.imgId = some imgDesc)
    (h : ∀ methods, imgDesc.imgAuthMethods = some methods → SameInputs cot imgDesc methods s s') :
    authModVerifyImg P cot call s = authModVerifyImg P cot call s' := by
  unfold authModVerifyImg
  simp only [hdesc, bind_eq_bind, bind_some]
  cases hmeth : imgDesc.imgAuthMethods with
  | none => rfl
  | some methods =>
    have hauth : ∀ view, authMethods P cot imgDesc view call methods s =
        authMethods P cot imgDesc view call methods s' :=
      fun view => authMethods_congr (h methods hmeth)
    simp [hauth]

theorem authGetParam_of_findParam {t : AuthParamTypeDesc} {d : AuthParamDesc}
    (h : findParam t pdesc.entries = some (some d)) :
    authGetParam t pdesc s = some (.ok (s.readBuf d.buf d.len)) := by
  unfold authGetParam
  cases hds : pdesc.authenticatedData with
  | none =>
    rw [AuthImgDesc.entries, hds] at h
    cases h
  | some =>
    rw [AuthImgDesc.entries, hds, getD_some] at h
    simp [h]

/-- The parameters of an image are the same in both states if every entry's buffer is. -/
theorem authGetParam_congr_entries (h : ∀ t d, findParam t pdesc.entries = some (some d) →
      s.readBuf d.buf d.len = s'.readBuf d.buf d.len) (t : AuthParamTypeDesc) :
    authGetParam t pdesc s = authGetParam t pdesc s' := by
  unfold authGetParam
  cases hds : pdesc.authenticatedData with
  | none => rfl
  | some ds =>
    cases hfind : findParam t ds with
    | none => simp [hfind]
    | some r =>
      cases r with
      | none => simp [hfind]
      | some d =>
        have hbuf := h t d (by rw [AuthImgDesc.entries, hds]; exact hfind)
        simp [hfind, hbuf]

/-! ### The latest call on the parent -/

/-- The latest call on an image, if it has succeeded, has left the image's parameters at the
start of their buffers. -/
def LatestLoaded (P : Platform) (cot : Cot) (u : Sys) : Prop :=
  ∀ p pdesc e, cot p = some pdesc → u.log.find? (·.call.imgId = p) = some e →
    e.outcome.rc = 0 → ∀ d, some d ∈ pdesc.entries → ∃ key tail,
      extracted P cot p e.call.img d.typeDesc = some key ∧
      u.state.readBuf d.buf d.len = key ++ tail

theorem LatestLoaded.step {P : Platform} {cot : Cot} (hsep : Separate cot) {u u' : Sys}
    {call : Call} (hu : LatestLoaded P cot u) (h : step P cot u call = some u') :
    LatestLoaded P cot u' := by
  obtain ⟨o, ho, hu'⟩ := bind_eq_some_iff.mp h
  cases hu'
  intro p pdesc e hpd he hrc d hd
  by_cases hp : call.imgId = p
  · -- the call is itself the latest one on the image
    rw [find?_cons_of_pos (by simpa using hp)] at he
    cases he
    subst hp
    obtain ⟨view, key, tail, hview, hfits, -, hbuf⟩ :=
      params_of_authModVerifyImg hsep ho hrc hpd hd
    exact ⟨key, tail, extracted_eq_some hpd hview hfits.1, hbuf⟩
  · rw [find?_cons_of_neg (by simpa using hp)] at he
    obtain ⟨key, tail, hkey, hbuf⟩ := hu p pdesc e hpd he hrc d hd
    have hsame : (u.state.applyAll o.effects).bufs d.buf = u.state.bufs d.buf :=
      applyAll_bufs_of_not_copied (bufs_of_other_image hsep ho hp hpd (mem_buffers hd))
    refine ⟨key, tail, hkey, ?_⟩
    rw [← hbuf]
    simp [readBuf, hsame]

/-- The parent's parameters are as long as the buffers that they are kept in. -/
def FillsBuffers (P : Platform) (cot : Cot) (p : ImgId) (pdesc : AuthImgDesc) (img : Bytes) :
    Prop :=
  ∀ t d, findParam t pdesc.entries = some (some d) →
    ∃ key, extracted P cot p img t = some key ∧ key.length = d.len

/-- What a child is handed is what the parser extracts from the parent. -/
def HandsOver (P : Platform) (cot : Cot) (p : ImgId) (pdesc : AuthImgDesc) (img : Bytes)
    (s : State) : Prop :=
  ∀ t d, findParam t pdesc.entries = some (some d) →
    ∃ key, extracted P cot p img t = some key ∧ authGetParam t pdesc s = some (.ok key)

theorem LatestLoaded.handsOver_iff {P : Platform} {cot : Cot} {u : Sys}
    (hu : LatestLoaded P cot u) {p : ImgId} {pdesc : AuthImgDesc} {e : Entry}
    (hpd : cot p = some pdesc) (he : u.log.find? (·.call.imgId = p) = some e)
    (hrc : e.outcome.rc = 0) :
    HandsOver P cot p pdesc e.call.img u.state ↔ FillsBuffers P cot p pdesc e.call.img := by
  constructor
  · intro h t d hfind
    obtain ⟨key, hkey, hgiv⟩ := h t d hfind
    rw [authGetParam_of_findParam hfind] at hgiv
    have hbuf : u.state.readBuf d.buf d.len = key := Except.ok.inj (some.inj hgiv)
    exact ⟨key, hkey, by rw [← hbuf, readBuf_length]⟩
  · intro h t d hfind
    obtain ⟨key, hkey, hlen⟩ := h t d hfind
    obtain ⟨hd, rfl⟩ := findParam_mem hfind
    obtain ⟨key', tail, hkey', hbuf⟩ := hu p pdesc e hpd he hrc d hd
    obtain rfl : key' = key := some.inj (hkey'.symm.trans hkey)
    have htail : tail = [] := by
      have := congrArg length hbuf
      rw [readBuf_length, length_append] at this
      exact length_eq_zero_iff.mp (by omega)
    refine ⟨key', hkey, ?_⟩
    rw [authGetParam_of_findParam hfind, hbuf, htail, append_nil]

/-- **The verdict on a child.** After two runs, in which the latest call on the parent has
succeeded on the same parent image, the child is handed what the parser extracts from the parent
if and only if these parameters fill their buffers; and then the same child image gets the same
result and the same effects in both, as long as the counters that it names are the same. -/
theorem child_verdict_of_parent (P : Platform) (cot : Cot) (hsep : Separate cot)
    (s₁ s₂ : State) (calls₁ calls₂ : List Call) (u₁ u₂ : Sys)
    (hrun₁ : run (step P cot) ⟨s₁, []⟩ calls₁ = some u₁)
    (hrun₂ : run (step P cot) ⟨s₂, []⟩ calls₂ = some u₂)
    (call : Call) (imgDesc pdesc : AuthImgDesc) (p : ImgId)
    (hdesc : cot call.imgId = some imgDesc) (hparent : imgDesc.parent = some p)
    (hpdesc : cot p = some pdesc) (e₁ e₂ : Entry)
    (he₁ : u₁.log.find? (·.call.imgId = p) = some e₁) (hrc₁ : e₁.outcome.rc = 0)
    (he₂ : u₂.log.find? (·.call.imgId = p) = some e₂) (hrc₂ : e₂.outcome.rc = 0)
    (himg : e₁.call.img = e₂.call.img) :
    (HandsOver P cot p pdesc e₁.call.img u₁.state ↔ FillsBuffers P cot p pdesc e₁.call.img) ∧
    (HandsOver P cot p pdesc e₂.call.img u₂.state ↔ FillsBuffers P cot p pdesc e₂.call.img) ∧
    (FillsBuffers P cot p pdesc e₁.call.img →
      (∀ methods c k, imgDesc.imgAuthMethods = some methods → .nvCtr c k ∈ methods →
        u₁.state.nvCtr k.cookie = u₂.state.nvCtr k.cookie) →
      authModVerifyImg P cot call u₁.state = authModVerifyImg P cot call u₂.state) := by
  have hld : ∀ {s calls u}, run (step P cot) ⟨s, []⟩ calls = some u → LatestLoaded P cot u := by
    intro s calls u hrun
    have hnone : LatestLoaded P cot ⟨s, []⟩ := fun p pdesc e _ he => by cases he
    exact run_invariant (fun _ _ _ => LatestLoaded.step hsep) hnone hrun
  have hiff₁ := (hld hrun₁).handsOver_iff hpdesc he₁ hrc₁
  have hiff₂ := (hld hrun₂).handsOver_iff hpdesc he₂ hrc₂
  refine ⟨hiff₁, hiff₂, fun hfil hctr => ?_⟩
  have hhands₁ := hiff₁.mpr hfil
  have hhands₂ := hiff₂.mpr (himg ▸ hfil)
  apply authModVerifyImg_congr hdesc
  intro methods hmeth
  refine ⟨fun pdesc' hpdesc' => ?_, fun c k hmem => hctr methods c k hmeth hmem⟩
  obtain rfl : pdesc = pdesc' := by
    rw [parentDesc, hparent] at hpdesc'
    exact some.inj (hpdesc.symm.trans hpdesc')
  apply authGetParam_congr_entries
  intro t d hfind
  obtain ⟨key, hkey, hgiven₁⟩ := hhands₁ t d hfind
  obtain ⟨key', hkey', hgiven₂⟩ := hhands₂ t d hfind
  obtain rfl : key = key' := by
    rw [himg] at hkey
    exact some.inj (hkey.symm.trans hkey')
  rw [authGetParam_of_findParam hfind] at hgiven₁ hgiven₂
  exact Except.ok.inj (some.inj (hgiven₁.trans hgiven₂.symm))

/-- Other hashes in the certificate of image 0. -/
def otherHashes : Call :=
  callOn 0 (X509.certWith (hashExtension 7 (digestInfo 3) ++ hashExtension 8 (digestInfo 4)))

/-- The image of the latest call on image 0, if that call has succeeded. -/
def latestRoot (u : Sys) : Option Bytes :=
  (u.log.find? (·.call.imgId = 0)).bind fun e => if e.outcome.rc = 0 then some e.call.img else none

theorem latestRoot_eq_some {u : Sys} {img : Bytes} (h : latestRoot u = some img) :
    ∃ e, u.log.find? (·.call.imgId = 0) = some e ∧ e.outcome.rc = 0 ∧ e.call.img = img := by
  obtain ⟨e, he, h⟩ := bind_eq_some_iff.mp h
  split_ifs at h with hrc
  exact ⟨e, he, hrc, some.inj h⟩

/-- The certificate with the two hashes, after another one and on its own. -/
theorem child_verdict_of_parent_bothHashes :
    ∃ u₁ u₂ o, run (step bootPlatform twoImages) (.boot fun _ => 0) [otherHashes, bothHashes] =
        some u₁ ∧
      run (step bootPlatform twoImages) (.boot fun _ => 0) [bothHashes] = some u₂ ∧
      authModVerifyImg bootPlatform twoImages (callOn 1 [1, 5]) u₁.state = some o ∧ o.rc = 0 ∧
      authModVerifyImg bootPlatform twoImages (callOn 1 [1, 5]) u₂.state = some o := by
  have hfil : FillsBuffers bootPlatform twoImages 0 rootDesc bothHashes.img := by
    intro t d hfind
    obtain ⟨hd, rfl⟩ := findParam_mem hfind
    simp only [rootDesc, AuthImgDesc.entries, getD_some, mem_cons, some.injEq,
      not_mem_nil, or_false] at hd
    rcases hd with rfl | rfl
    · exact ⟨digestInfo 1, by decide +kernel, rfl⟩
    · exact ⟨digestInfo 2, by decide +kernel, rfl⟩
  simp only [exists_and_left]
  refine exists_some_imp (q := fun u₁ => latestRoot u₁ = some bothHashes.img ∧
    ∃ o, authModVerifyImg bootPlatform twoImages (callOn 1 [1, 5]) u₁.state = some o ∧ o.rc = 0)
    (by decide +kernel) fun u₁ hrun₁ hend => ?_
  obtain ⟨hlatest₁, o, ho, hrc⟩ := hend
  refine exists_some_imp (q := fun u₂ => latestRoot u₂ = some bothHashes.img) (by decide +kernel)
    fun u₂ hrun₂ hlatest₂ => ⟨o, ho, hrc, ?_⟩
  obtain ⟨e₁, he₁, hrc₁, himg₁⟩ := latestRoot_eq_some hlatest₁
  obtain ⟨e₂, he₂, hrc₂, himg₂⟩ := latestRoot_eq_some hlatest₂
  obtain ⟨-, -, hsame⟩ := child_verdict_of_parent bootPlatform twoImages twoImages_separate _ _ _ _
    u₁ u₂ hrun₁ hrun₂ (callOn 1 [1, 5]) rawDesc rootDesc 0 rfl rfl rfl e₁ e₂ he₁ hrc₁ he₂ hrc₂
    (himg₁.trans himg₂.symm)
  have hctr : ∀ methods c k, rawDesc.imgAuthMethods = some methods → .nvCtr c k ∈ methods →
      u₁.state.nvCtr k.cookie = u₂.state.nvCtr k.cookie := by
    rintro methods c k hmeth hmem
    cases hmeth
    simp at hmem
  rw [← hsame (himg₁ ▸ hfil) hctr]
  exact ho

/-- The certificate whose first hash is cut off after its first two bytes. -/
def cutHash : Call :=
  callOn 0 (X509.certWith (hashExtension 7 [0x30, 8] ++ hashExtension 8 (digestInfo 2)))

/-- Twice the latest certificate is the one with two bytes for a digest. The child is rejected if
it is the only one; after a certificate with a whole digest, the rest of that digest is still in
the buffer, and the child is accepted. -/
theorem leftover_digest_accepted :
    ∃ u₁ u₂ o₁ o₂,
      run (step bootPlatform twoImages) (.boot fun _ => 0) [bothHashes, cutHash] = some u₁ ∧
      run (step bootPlatform twoImages) (.boot fun _ => 0) [cutHash] = some u₂ ∧
      latestRoot u₁ = some cutHash.img ∧ latestRoot u₂ = some cutHash.img ∧
      extracted bootPlatform twoImages 0 cutHash.img ⟨.hash, 7⟩ = some [0x30, 8] ∧
      authGetParam ⟨.hash, 7⟩ rootDesc u₁.state = some (.ok (digestInfo 1)) ∧
      authModVerifyImg bootPlatform twoImages (callOn 1 [1, 5]) u₁.state = some o₁ ∧ o₁.rc = 0 ∧
      authModVerifyImg bootPlatform twoImages (callOn 1 [1, 5]) u₂.state = some o₂ ∧
      o₂.rc ≠ 0 := by
  simp only [exists_and_left]
  decide +kernel

end TrustedFirmware.Auth
