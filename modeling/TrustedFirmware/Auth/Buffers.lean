import TrustedFirmware.Auth.NvCounter

/-!
# The parameter buffers

What a call of `auth_mod_verify_img` leaves in the buffers of its image, and which bytes
of them a child image is checked against.

The copies are not made at once: parameters are copied one after the other while the later
ones have not been looked at (`AllOrNothing` says when that does no harm), into buffers that
other images may use too (`Separate`), over the bytes of an earlier certificate; and
`auth_get_param` hands the whole buffer to the crypto library, with what stands behind the
parameter (`SelfDelimiting`).
-/

namespace TrustedFirmware.Auth

open Lib List Option State

/-! ### Parameters and buffers -/

/-- The parameter that the parser extracts from an image. -/
def extracted (P : Platform) (cot : Cot) (imgId : ImgId) (img : Bytes) (t : AuthParamTypeDesc) :
    Option Bytes := do
  let imgDesc ← cot imgId
  match ← imgParserCheckIntegrity P imgDesc.imgType img with
  | .error _ => none
  | .ok view =>
    match ← getAuthParam view t with
    | .error _ => none
    | .ok bytes => some bytes

/-- The parent's parameter that a method checks the image against. -/
def AuthMethod.key? : AuthMethod → Option AuthParamTypeDesc
  | .hash _ h => some h
  | .sig pk _ _ _ => some pk
  | .none | .nvCtr _ _ => .none

/-- The buffers of an image's parameters. -/
def AuthImgDesc.buffers (imgDesc : AuthImgDesc) : List Nat :=
  imgDesc.entries.filterMap (·.map AuthParamDesc.buf)

/-- The call has copied something into one of the buffers. -/
def Entry.writes (e : Entry) (bufs : List Nat) : Bool :=
  e.outcome.effects.any fun
    | .copy buf _ => bufs.contains buf
    | .setNvCtr _ _ | .authenticated _ => false

/-- The buffers of different parameters are different. -/
structure Separate (cot : Cot) : Prop where
  nodup : ∀ imgId imgDesc, cot imgId = some imgDesc → imgDesc.buffers.Nodup
  disjoint : ∀ imgId imgId' imgDesc imgDesc', cot imgId = some imgDesc →
    cot imgId' = some imgDesc' → imgId ≠ imgId' → ∀ buf ∈ imgDesc.buffers, buf ∉ imgDesc'.buffers

variable {imgDesc : AuthImgDesc} {bytes : Bytes} {d : AuthParamDesc} {imgId : ImgId}

theorem mem_buffers (h : some d ∈ imgDesc.entries) : d.buf ∈ imgDesc.buffers :=
  mem_filterMap.mpr ⟨some d, h, rfl⟩

theorem Separate.entry_eq {cot : Cot} (h : Separate cot)
    (hdesc : cot imgId = some imgDesc) {d' : AuthParamDesc} (hd : some d ∈ imgDesc.entries)
    (hd' : some d' ∈ imgDesc.entries) (hbuf : d.buf = d'.buf) : d = d' := by
  have hnd := h.nodup imgId imgDesc hdesc
  have hmap : imgDesc.buffers = (imgDesc.entries.filterMap id).map AuthParamDesc.buf := by
    rw [map_filterMap]
    rfl
  rw [hmap] at hnd
  exact inj_on_of_nodup_map hnd (mem_filterMap.mpr ⟨some d, hd, rfl⟩)
    (mem_filterMap.mpr ⟨some d', hd', rfl⟩) hbuf

/-! ### What a call leaves in the buffers -/

variable {s : State} {es : List Effect} {buf : Nat}

theorem State.readBuf_length (s : State) (buf len : Nat) : (s.readBuf buf len).length = len := by
  simp [readBuf]

theorem State.applyAll_bufs_of_not_copied (h : ∀ bytes, .copy buf bytes ∉ es) :
    (s.applyAll es).bufs buf = s.bufs buf := by
  induction es generalizing s with
  | nil => rfl
  | cons e es ih =>
    rw [applyAll_cons, ih fun bytes hmem => h bytes (mem_cons_of_mem e hmem)]
    cases e with
    | copy buf' bytes =>
      have hne : buf ≠ buf' := by
        rintro rfl
        exact h bytes mem_cons_self
      simp [apply, hne]
    | setNvCtr | authenticated => rfl

section

variable (hmem : .copy buf bytes ∈ es) (hsame : ∀ bytes', .copy buf bytes' ∈ es → bytes' = bytes)
include hmem hsame

/-- A buffer that the copies of one parameter go to: the parameter, and behind it what was
there. -/
theorem State.applyAll_bufs_of_copied (i : Nat) :
    (s.applyAll es).bufs buf i = bytes[i]?.getD (s.bufs buf i) := by
  induction es generalizing s with
  | nil => simp at hmem
  | cons e es ih =>
    have hsame' : ∀ bytes', .copy buf bytes' ∈ es → bytes' = bytes :=
      fun bytes' h => hsame bytes' (mem_cons_of_mem e h)
    have hhead : (s.apply e).bufs buf i = s.bufs buf i ∨
        (s.apply e).bufs buf i = bytes[i]?.getD (s.bufs buf i) := by
      cases e with
      | copy buf' bytes' =>
        obtain rfl | hbuf := eq_or_ne buf buf'
        · obtain rfl := hsame bytes' mem_cons_self
          exact .inr (by simp [apply])
        · exact .inl (by simp [apply, hbuf])
      | setNvCtr | authenticated => exact .inl rfl
    rw [applyAll_cons]
    by_cases hlat : .copy buf bytes ∈ es
    · rw [ih hlat hsame']
      rcases hhead with hhead | hhead <;> rw [hhead]
      cases bytes[i]? <;> rfl
    · obtain rfl : e = .copy buf bytes := by
        rcases mem_cons.mp hmem with h | h
        · exact h.symm
        · exact absurd h hlat
      have hnone : ∀ bytes', .copy buf bytes' ∉ es := by
        intro bytes' h
        rw [hsame' bytes' h] at h
        exact hlat h
      rw [applyAll_bufs_of_not_copied hnone]
      simp [apply]

/-- The first bytes of a buffer with a parameter in it. -/
theorem State.readBuf_of_copied {len : Nat} (hlen : bytes.length ≤ len) :
    ∃ tail, (s.applyAll es).readBuf buf len = bytes ++ tail := by
  refine ⟨((s.applyAll es).readBuf buf len).drop bytes.length, ?_⟩
  have htake : ((s.applyAll es).readBuf buf len).take bytes.length = bytes := by
    apply ext_getElem
    · simp [readBuf, hlen]
    · intro i h₁ h₂
      simp only [readBuf, getElem_take, getElem_map, getElem_range]
      rw [applyAll_bufs_of_copied hmem hsame]
      simp [h₂]
  conv_lhs => rw [← take_append_drop bytes.length ((s.applyAll es).readBuf buf len), htake]

end

variable {view : View} {ds : List (Option AuthParamDesc)}

/-- The parameter of an entry can be extracted and fits into its buffer. -/
def Fits (view : View) (d : AuthParamDesc) (bytes : Bytes) : Prop :=
  getAuthParam view d.typeDesc = some (.ok bytes) ∧ bytes.length ≤ d.len

theorem extractParams_ok {ds : List (Option AuthParamDesc)} {o : Outcome}
    (h : extractParams view ds = some o) (hrc : o.rc = 0) :
    ∀ d, some d ∈ ds → ∃ bytes, Fits view d bytes ∧ .copy d.buf bytes ∈ o.effects := by
  induction ds generalizing o with
  | nil => simp
  | cons x ds ih =>
    intro d hd
    cases x with
    | none => exact ih h hrc d (by simpa using hd)
    | some x =>
      obtain ⟨r, hr, h⟩ := bind_eq_some_iff.mp h
      cases r with
      | error err =>
        cases h
        exact absurd hrc err.2
      | ok bytes =>
        simp only at h
        split at h
        · cases h
          simp at hrc
        rename_i hlen
        obtain ⟨o', ho', h⟩ := bind_eq_some_iff.mp h
        cases h
        rcases mem_cons.mp hd with heq | hd
        · cases heq
          exact ⟨bytes, ⟨hr, not_lt.mp hlen⟩, mem_cons_self⟩
        · obtain ⟨bytes', hfits, hmem⟩ := ih ho' hrc d hd
          exact ⟨bytes', hfits, mem_cons_of_mem _ hmem⟩

theorem extractParams_rc {ds : List (Option AuthParamDesc)} {o : Outcome}
    (h : extractParams view ds = some o) (hall : ∀ d, some d ∈ ds → ∃ bytes, Fits view d bytes) :
    o.rc = 0 := by
  induction ds generalizing o with
  | nil =>
    cases h
    rfl
  | cons x ds ih =>
    have hrest : ∀ d, some d ∈ ds → ∃ bytes, Fits view d bytes :=
      fun d hd => hall d (mem_cons_of_mem _ hd)
    cases x with
    | none => exact ih h hrest
    | some x =>
      obtain ⟨bytes, hget, hlen⟩ := hall x mem_cons_self
      unfold extractParams at h
      rw [hget] at h
      simp only [bind_eq_bind, bind_some] at h
      rw [if_neg (by omega)] at h
      obtain ⟨o', ho', h⟩ := bind_eq_some_iff.mp h
      cases h
      have hrc : o'.rc = 0 := ih ho' hrest
      exact hrc

/-- All parameters can be extracted, or the first one cannot. -/
def AllOrNothing (view : View) (ds : List (Option AuthParamDesc)) : Prop :=
  (∀ d, some d ∈ ds → ∃ bytes, Fits view d bytes) ∨
    ∀ d, (ds.filterMap id).head? = some d → ¬ ∃ bytes, Fits view d bytes

/-- If the first parameter cannot be extracted, nothing is copied; if all can, all are. -/
theorem AllOrNothing.effects_eq_nil {ds : List (Option AuthParamDesc)} {o : Outcome}
    (hall : AllOrNothing view ds) (h : extractParams view ds = some o) (hrc : o.rc ≠ 0) :
    o.effects = [] := by
  induction ds generalizing o with
  | nil =>
    cases h
    rfl
  | cons x ds ih =>
    cases x with
    | none =>
      refine ih ?_ h hrc
      rcases hall with hall | hfst
      · exact .inl fun d hd => hall d (mem_cons_of_mem _ hd)
      · exact .inr hfst
    | some x =>
      obtain ⟨r, hr, h⟩ := bind_eq_some_iff.mp h
      cases r with
      | error =>
        cases h
        rfl
      | ok bytes =>
        simp only at h
        split at h
        · cases h
          rfl
        rename_i hlen
        obtain ⟨o', ho', h⟩ := bind_eq_some_iff.mp h
        cases h
        rcases hall with hall | hfst
        · -- the rest is extracted too, so the whole has not failed
          have hrest : o'.rc = 0 :=
            extractParams_rc ho' fun d hd => hall d (mem_cons_of_mem _ hd)
          exact absurd hrest hrc
        · exact absurd ⟨bytes, hr, not_lt.mp hlen⟩ (hfst x rfl)

variable {P : Platform} {cot : Cot} {call : Call} {o : Outcome}

/-- A call copies only while it extracts, after every method has passed, and only into the
buffers of its own image. -/
theorem copy_of_authModVerifyImg (h : authModVerifyImg P cot call s = some o) {buf : Nat}
    (hmem : .copy buf bytes ∈ o.effects) :
    ∃ imgDesc view params d, cot call.imgId = some imgDesc ∧
      imgParserCheckIntegrity P imgDesc.imgType call.img = some (.ok view) ∧
      extractParams view imgDesc.entries = some params ∧ .copy buf bytes ∈ params.effects ∧
      (params.rc = 0 ↔ o.rc = 0) ∧ some d ∈ imgDesc.entries ∧ d.buf = buf ∧
      Fits view d bytes := by
  obtain ⟨-, heff⟩ | ⟨imgDesc, view, methods, auth, hdesc, hview, -, hauth, hend⟩ :=
    authModVerifyImg_cases h
  · simp [heff] at hmem
  have hnone : .copy buf bytes ∉ auth.effects :=
    fun hmem => authMethods_copies hauth _ hmem buf bytes rfl
  have hfits : ∀ {params}, extractParams view imgDesc.entries = some params →
      .copy buf bytes ∈ params.effects → ∃ d, some d ∈ imgDesc.entries ∧ d.buf = buf ∧
        Fits view d bytes := by
    intro params hpar hmem
    obtain ⟨d, bytes', hd, hget, hlen, heq⟩ := extractParams_copies hpar _ hmem
    obtain ⟨rfl, rfl⟩ := Effect.copy.inj heq
    exact ⟨d, hd, rfl, hget, hlen⟩
  obtain ⟨-, rfl⟩ | ⟨-, params, hpar, ⟨hrc, rfl⟩ | ⟨hrc, rfl⟩⟩ := hend
  · exact absurd hmem hnone
  · have hmem : .copy buf bytes ∈ params.effects :=
      (mem_append.mp hmem).resolve_left hnone
    obtain ⟨d, hd⟩ := hfits hpar hmem
    exact ⟨imgDesc, view, params, d, hdesc, hview, hpar, hmem, Iff.rfl, hd⟩
  · have hmem : .copy buf bytes ∈ params.effects := by
      rcases mem_append.mp hmem with hmem | hmem
      · exact (mem_append.mp hmem).resolve_left hnone
      · simp at hmem
    obtain ⟨d, hd⟩ := hfits hpar hmem
    exact ⟨imgDesc, view, params, d, hdesc, hview, hpar, hmem, by simp [hrc], hd⟩

theorem extracted_eq_some {view : View} {t : AuthParamTypeDesc}
    {img : Bytes} (hdesc : cot imgId = some imgDesc)
    (hview : imgParserCheckIntegrity P imgDesc.imgType img = some (.ok view))
    (hget : getAuthParam view t = some (.ok bytes)) :
    extracted P cot imgId img t = some bytes := by
  simp [extracted, hdesc, hview, hget]

/-- A call that succeeds leaves every parameter of its image at the start of its buffer. -/
theorem params_of_authModVerifyImg (hsep : Separate cot)
    (h : authModVerifyImg P cot call s = some o) (hrc : o.rc = 0)
    (hdesc : cot call.imgId = some imgDesc) (hd : some d ∈ imgDesc.entries) :
    ∃ view key tail, imgParserCheckIntegrity P imgDesc.imgType call.img = some (.ok view) ∧
      Fits view d key ∧ .copy d.buf key ∈ o.effects ∧
      (s.applyAll o.effects).readBuf d.buf d.len = key ++ tail := by
  obtain ⟨hne, -⟩ | ⟨imgDesc', view, methods, auth, hdesc', hview, -, -, hend⟩ :=
    authModVerifyImg_cases h
  · exact absurd hrc hne
  obtain rfl : imgDesc' = imgDesc := some.inj (hdesc'.symm.trans hdesc)
  obtain ⟨hne, rfl⟩ | ⟨-, params, hpar, ⟨hne, rfl⟩ | ⟨hprc, rfl⟩⟩ := hend
  · exact absurd hrc hne
  · exact absurd hrc hne
  obtain ⟨key, hfits, hmem⟩ := extractParams_ok hpar hprc d hd
  have hmem : .copy d.buf key ∈ auth.effects ++ params.effects ++ [.authenticated call.imgId] :=
    mem_append_left _ (mem_append_right _ hmem)
  -- another copy to this buffer is one of the same parameter
  have hsame : ∀ bytes', .copy d.buf bytes' ∈
      auth.effects ++ params.effects ++ [.authenticated call.imgId] → bytes' = key := by
    intro bytes' hmem'
    obtain ⟨imgDesc'', view', params', d', hdesc'', hview', -, -, -, hd', hbuf, hfits'⟩ :=
      copy_of_authModVerifyImg h hmem'
    obtain rfl : imgDesc'' = imgDesc' := some.inj (hdesc''.symm.trans hdesc')
    obtain rfl : d' = d := hsep.entry_eq hdesc hd' hd hbuf
    rw [hview] at hview'
    cases hview'
    have hsame := hfits.1.symm.trans hfits'.1
    exact (Except.ok.inj (some.inj hsame)).symm
  obtain ⟨tail, htail⟩ := readBuf_of_copied hmem hsame hfits.2
  exact ⟨view, key, tail, hview, hfits, hmem, htail⟩

theorem bufs_of_other_image (hsep : Separate cot) (h : authModVerifyImg P cot call s = some o)
    {p : ImgId} (hp : call.imgId ≠ p) {pdesc : AuthImgDesc} (hpd : cot p = some pdesc)
    {buf : Nat} (hbuf : buf ∈ pdesc.buffers) (bytes : Bytes) : .copy buf bytes ∉ o.effects := by
  intro hmem
  obtain ⟨imgDesc, view, params, d, hdesc, -, -, -, -, hd, rfl, -⟩ :=
    copy_of_authModVerifyImg h hmem
  exact hsep.disjoint call.imgId p imgDesc pdesc hdesc hpd hp d.buf (mem_buffers hd) hbuf

/-! ### What a child is checked against -/

/-- The image passes the check of the method against these bytes. -/
def PassesWith (P : Platform) (view : View) (key : Bytes) : AuthMethod → Prop
  | .hash data _ => ∃ dataBytes, getAuthParam view data = some (.ok dataBytes) ∧
      P.crypto.verifyHash dataBytes key = 0
  | .sig _ sig alg data => ∃ dataBytes sigBytes algBytes,
      getAuthParam view data = some (.ok dataBytes) ∧
      getAuthParam view sig = some (.ok sigBytes) ∧ getAuthParam view alg = some (.ok algBytes) ∧
      P.crypto.verifySignature dataBytes sigBytes algBytes key = 0
  | .none | .nvCtr _ _ => True

/-- The crypto library judges the parameter alike whatever follows it in a buffer of `len`
bytes. -/
def SelfDelimiting (P : Platform) (key : Bytes) (len : Nat) : Prop :=
  ∀ tail, (key ++ tail).length = len →
    (∀ data, P.crypto.verifyHash data (key ++ tail) = P.crypto.verifyHash data key) ∧
    ∀ data sig alg, P.crypto.verifySignature data sig alg (key ++ tail) =
        P.crypto.verifySignature data sig alg key

variable {pdesc : AuthImgDesc} {p : ImgId} {m : AuthMethod} {t : AuthParamTypeDesc}
  {key tail : Bytes}

theorem PassesWith.of_append (h : PassesWith P view (key ++ tail) m)
    (hself : SelfDelimiting P key (key ++ tail).length) : PassesWith P view key m := by
  obtain ⟨hhash, hsig⟩ := hself tail rfl
  cases m with
  | hash =>
    obtain ⟨dataBytes, hdata, hchk⟩ := h
    exact ⟨dataBytes, hdata, (hhash dataBytes).symm.trans hchk⟩
  | sig =>
    obtain ⟨dataBytes, sigBytes, algBytes, hdata, hs, ha, hchk⟩ := h
    exact ⟨dataBytes, sigBytes, algBytes, hdata, hs, ha, (hsig _ _ _).symm.trans hchk⟩
  | none | nvCtr => trivial

theorem cryptoModVerifyHash_zero {data digestInfo : Bytes}
    (h : cryptoModVerifyHash P data digestInfo = some 0) :
    P.crypto.verifyHash data digestInfo = 0 := by
  unfold cryptoModVerifyHash at h
  split at h
  next hemp => cases h
  next hemp => exact some.inj h

theorem cryptoModVerifySignature_zero {data sig alg pk : Bytes}
    (h : cryptoModVerifySignature P data sig alg pk = some 0) :
    P.crypto.verifySignature data sig alg pk = 0 := by
  unfold cryptoModVerifySignature at h
  split at h
  next hemp => cases h
  next hemp => exact some.inj h

theorem bind_eq_zero {x : Option (Except Err Bytes)} {f : Except Err Bytes → Option Int}
    (h : x.bind f = some 0) (herr : ∀ err, f (.error err) = some err.1) :
    ∃ found, x = some (.ok found) ∧ f (.ok found) = some 0 := by
  obtain ⟨r, hx, h⟩ := bind_eq_some_iff.mp h
  cases r with
  | error err => exact absurd (some.inj ((herr err).symm.trans h)) err.2
  | ok found => exact ⟨found, hx, h⟩

theorem authHash_zero {data hash : AuthParamTypeDesc}
    (h : authHash P cot data hash imgDesc view s = some 0) :
    ∃ pdesc given, parentDesc cot imgDesc = some pdesc ∧
      authGetParam hash pdesc s = some (.ok given) ∧
      PassesWith P view given (.hash data hash) := by
  obtain ⟨pdesc, hpd, h⟩ := bind_eq_some_iff.mp h
  obtain ⟨given, hgiv, h⟩ := bind_eq_zero h fun _ => rfl
  obtain ⟨dataBytes, hdata, h⟩ := bind_eq_zero h fun _ => rfl
  exact ⟨pdesc, given, hpd, hgiv, dataBytes, hdata, cryptoModVerifyHash_zero h⟩

/-- The start of `auth_signature`, which is the same with and without a parent. -/
theorem authSignature_zero {pk sig alg data : AuthParamTypeDesc}
    (h : authSignature P cot pk sig alg data imgDesc view s = some 0) :
    ∃ dataBytes sigBytes algBytes, getAuthParam view data = some (.ok dataBytes) ∧
      getAuthParam view sig = some (.ok sigBytes) ∧ getAuthParam view alg = some (.ok algBytes) ∧
      ((imgDesc.parent = none ∧ authRotpk P pk view dataBytes sigBytes algBytes = some 0) ∨
        ∃ pdesc given, parentDesc cot imgDesc = some pdesc ∧
          authGetParam pk pdesc s = some (.ok given) ∧
          P.crypto.verifySignature dataBytes sigBytes algBytes given = 0) := by
  obtain ⟨dataBytes, hdata, h⟩ := bind_eq_zero h fun _ => rfl
  obtain ⟨sigBytes, hsig, h⟩ := bind_eq_zero h fun _ => rfl
  obtain ⟨algBytes, halg, h⟩ := bind_eq_zero h fun _ => rfl
  refine ⟨dataBytes, sigBytes, algBytes, hdata, hsig, halg, ?_⟩
  generalize hpar : imgDesc.parent = v at h
  cases v with
  | none =>
    exact .inl ⟨rfl, h⟩
  | some =>
    obtain ⟨pdesc, hpd, h⟩ := bind_eq_some_iff.mp h
    obtain ⟨given, hgiv, h⟩ := bind_eq_zero h fun _ => rfl
    refine .inr ⟨pdesc, given, ?_, hgiv, cryptoModVerifySignature_zero h⟩
    rw [parentDesc, hpar]
    exact hpd

/-- A method of a child that passes has been checked against a buffer of the parent. -/
theorem CheckOk.passesWith (hchk : CheckOk P cot imgDesc view s m) (hkey : m.key? = some t)
    (hpar : imgDesc.parent = some p) :
    ∃ pdesc given, cot p = some pdesc ∧ authGetParam t pdesc s = some (.ok given) ∧
      PassesWith P view given m := by
  have hpde : parentDesc cot imgDesc = cot p := by rw [parentDesc, hpar]; rfl
  cases m with
  | hash =>
    cases hkey
    rw [← hpde]
    exact authHash_zero hchk
  | sig =>
    cases hkey
    obtain ⟨dataBytes, sigBytes, algBytes, hdata, hsig, halg, ⟨hnone, -⟩ | ⟨pdesc, given, hpd,
      hgiv, hver⟩⟩ := authSignature_zero hchk
    · rw [hpar] at hnone
      cases hnone
    · rw [← hpde]
      exact ⟨pdesc, given, hpd, hgiv, dataBytes, sigBytes, algBytes, hdata, hsig, halg, hver⟩
  | none | nvCtr => cases hkey

theorem findParam_mem {ds : List (Option AuthParamDesc)} {d : AuthParamDesc}
    (h : findParam t ds = some (some d)) : some d ∈ ds ∧ d.typeDesc = t := by
  induction ds with
  | nil => cases h
  | cons x ds ih =>
    cases x with
    | none => cases h
    | some =>
      rw [findParam] at h
      split_ifs at h with heq
      · cases h
        exact ⟨mem_cons_self, heq.symm⟩
      · obtain ⟨hmem, ht⟩ := ih h
        exact ⟨mem_cons_of_mem _ hmem, ht⟩

/-- What `auth_get_param` returns is a buffer of the image, over the whole of its length. -/
theorem authGetParam_ok {given : Bytes} (h : authGetParam t pdesc s = some (.ok given)) :
    ∃ d, some d ∈ pdesc.entries ∧ d.typeDesc = t ∧ given = s.readBuf d.buf d.len := by
  unfold authGetParam at h
  generalize hds : pdesc.authenticatedData = v at h
  cases v with
  | none =>
    cases h
  | some =>
    obtain ⟨r, hfind, h⟩ := bind_eq_some_iff.mp h
    cases r with
    | none => cases h
    | some d =>
      obtain ⟨hmem, ht⟩ := findParam_mem hfind
      refine ⟨d, ?_, ht, ?_⟩
      · rw [AuthImgDesc.entries, hds]
        exact hmem
      · cases h
        rfl

end TrustedFirmware.Auth
