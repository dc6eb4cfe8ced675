import TrustedFirmware.Auth.Buffers
import TrustedFirmware.Auth.MbedtlsCrypto

/-!
# What an authenticated image rests on

`FromParent` says where the hash or key that a child image is checked against should come from: from
the parent image of the latest call that has written the parent's buffers, and that call has
succeeded. Then every image that passes is `Rooted` in the root key of the platform, by induction
along the chain (`authenticated_image_rooted`).

The property needs buffers of one's own and images that hold all their parameters or not the
first of them: a call that fails on a later parameter has copied the earlier ones already, and a
child is then accepted under a parent that has been rejected (`child_of_rejected_parent`).
-/

namespace TrustedFirmware.Auth

open Lib List Option

/-! ### The property -/

/-- The hash or key that a method checks the image against comes out of the parent image that the
latest call to write the parent's buffers was given, and that call succeeded. -/
def FromParent (P : Platform) (cot : Cot) (u : Sys) (call : Call) : Prop :=
  ∀ imgDesc view methods p m t, cot call.imgId = some imgDesc →
    imgParserCheckIntegrity P imgDesc.imgType call.img = some (.ok view) →
    imgDesc.imgAuthMethods = some methods → imgDesc.parent = some p →
    m ∈ methods → m.key? = some t →
    ∃ pdesc e key tail, cot p = some pdesc ∧
      u.log.find? (·.writes pdesc.buffers) = some e ∧ e.outcome.rc = 0 ∧ e.call.imgId = p ∧
      extracted P cot p e.call.img t = some key ∧
      authGetParam t pdesc u.state = some (.ok (key ++ tail)) ∧ PassesWith P view key m

/-- What the digests and the signatures really are. -/
structure Truth where
  digest : (data digestInfo : Bytes) → Prop
  signature : (data sig alg pk : Bytes) → Prop

/-- The crypto library accepts only true digests and signatures, and no parameter that is all
zero. -/
structure CryptoSound (P : Platform) (T : Truth) : Prop where
  digest : ∀ data digestInfo, P.crypto.verifyHash data digestInfo = 0 → T.digest data digestInfo
  signature : ∀ data sig alg pk, P.crypto.verifySignature data sig alg pk = 0 →
    T.signature data sig alg pk
  zero_digest : ∀ data len, P.crypto.verifyHash data (replicate len 0) ≠ 0
  zero_key : ∀ data sig alg len, P.crypto.verifySignature data sig alg (replicate len 0) ≠ 0

/-- The method holds of the image, with a true digest or signature for the parent's
parameters. -/
def Backed (T : Truth) (view : View) (key : AuthParamTypeDesc → Option Bytes) : AuthMethod → Prop
  | .hash data h => ∃ dataBytes k, getAuthParam view data = some (.ok dataBytes) ∧
      key h = some k ∧ T.digest dataBytes k
  | .sig pk sig alg data => ∃ dataBytes sigBytes algBytes k,
      getAuthParam view data = some (.ok dataBytes) ∧
      getAuthParam view sig = some (.ok sigBytes) ∧ getAuthParam view alg = some (.ok algBytes) ∧
      key pk = some k ∧ T.signature dataBytes sigBytes algBytes k
  | .none | .nvCtr _ _ => True

/-- The method holds of the image, with a true signature under the platform's root key: the key
itself, or a key in the image of which the platform has the digest. -/
def BackedByRotpk (P : Platform) (T : Truth) (view : View) : AuthMethod → Prop
  | .hash _ _ => False
  | .sig pk sig alg data => ∃ dataBytes sigBytes algBytes info,
      getAuthParam view data = some (.ok dataBytes) ∧
      getAuthParam view sig = some (.ok sigBytes) ∧ getAuthParam view alg = some (.ok algBytes) ∧
      P.getRotpkInfo pk.cookie = .ok info ∧
      (T.signature dataBytes sigBytes algBytes info.key ∨
        ∃ k, getAuthParam view pk = some (.ok k) ∧ T.signature dataBytes sigBytes algBytes k ∧
          T.digest k info.key)
  | .none | .nvCtr _ _ => True

/-- The image is rooted in the platform's root key: it is signed with it, or every hash and key
that it is checked against stands in a parent image that is rooted. -/
inductive Rooted (P : Platform) (cot : Cot) (T : Truth) : ImgId → Bytes → Prop
  | root {imgId : ImgId} {img : Bytes} {imgDesc : AuthImgDesc} {view : View}
      {methods : List AuthMethod} :
      cot imgId = some imgDesc → imgDesc.parent = none →
      imgParserCheckIntegrity P imgDesc.imgType img = some (.ok view) →
      imgDesc.imgAuthMethods = some methods → (∃ m ∈ methods, m.key? ≠ none) →
      (∀ m ∈ methods, BackedByRotpk P T view m) → Rooted P cot T imgId img
  | child {imgId p : ImgId} {img pimg : Bytes} {imgDesc : AuthImgDesc} {view : View}
      {methods : List AuthMethod} :
      cot imgId = some imgDesc → imgDesc.parent = some p → Rooted P cot T p pimg →
      imgParserCheckIntegrity P imgDesc.imgType img = some (.ok view) →
      imgDesc.imgAuthMethods = some methods → (∃ m ∈ methods, m.key? ≠ none) →
      (∀ m ∈ methods, Backed T view (extracted P cot p pimg) m) → Rooted P cot T imgId img

/-! ### When it holds -/

/-- A chain whose parameters have buffers of their own and whose images are all checked by a hash
or a signature, on a platform whose root key is deployed. -/
structure ChainOk (P : Platform) (cot : Cot) : Prop where
  separate : Separate cot
  checked : ∀ imgId imgDesc methods, cot imgId = some imgDesc →
    imgDesc.imgAuthMethods = some methods → ∃ m ∈ methods, m.key? ≠ none
  deployed : ∀ cookie info, P.getRotpkInfo cookie = .ok info → info.notDeployed = false

/-- The image that the call is given holds all the parameters that are kept of it or not the first
of them, each one self-delimiting. -/
def ParamsOk (P : Platform) (cot : Cot) (call : Call) : Prop :=
  ∀ imgDesc view, cot call.imgId = some imgDesc →
    imgParserCheckIntegrity P imgDesc.imgType call.img = some (.ok view) →
    AllOrNothing view imgDesc.entries ∧
      ∀ d key, some d ∈ imgDesc.entries → Fits view d key → SelfDelimiting P key d.len

/-- The buffers of the image are as they were at boot, or hold its parameters, out of an image
that a successful call has found rooted. -/
def Loaded (P : Platform) (cot : Cot) (T : Truth) (u : Sys) (p : ImgId) (pdesc : AuthImgDesc) :
    Prop :=
  (∀ d, some d ∈ pdesc.entries → ∀ i, u.state.bufs d.buf i = 0) ∨
    ∃ e, u.log.find? (·.writes pdesc.buffers) = some e ∧ e.outcome.rc = 0 ∧ e.call.imgId = p ∧
      Rooted P cot T p e.call.img ∧
      ∀ d, some d ∈ pdesc.entries → ∃ key tail,
        extracted P cot p e.call.img d.typeDesc = some key ∧ SelfDelimiting P key d.len ∧
        u.state.readBuf d.buf d.len = key ++ tail

/-- So are those of every image. -/
def AllLoaded (P : Platform) (cot : Cot) (T : Truth) (u : Sys) : Prop :=
  ∀ p pdesc, cot p = some pdesc → Loaded P cot T u p pdesc

variable {view : View} {m : AuthMethod} {p : ImgId} {pdesc imgDesc : AuthImgDesc}
  {t : AuthParamTypeDesc}

variable {P : Platform} {cot : Cot} {T : Truth} {u : Sys} {call : Call} {o : Outcome}

section

variable (hcry : CryptoSound P T)
include hcry

theorem not_passesWith_zero {len : Nat} (hkey : m.key? ≠ none) :
    ¬ PassesWith P view (replicate len 0) m := by
  cases m with
  | hash =>
    rintro ⟨dataBytes, -, hzero⟩
    exact hcry.zero_digest _ _ hzero
  | sig =>
    rintro ⟨dataBytes, sigBytes, algBytes, -, -, -, hzero⟩
    exact hcry.zero_key _ _ _ _ hzero
  | none | nvCtr => exact absurd rfl hkey

theorem PassesWith.backed {key : Bytes}
    {keys : AuthParamTypeDesc → Option Bytes} (h : PassesWith P view key m) (hkey : m.key? = some t)
    (ht : keys t = some key) :
    Backed T view keys m := by
  cases m with
  | hash =>
    cases hkey
    obtain ⟨dataBytes, hdata, hzero⟩ := h
    exact ⟨dataBytes, key, hdata, ht, hcry.digest _ _ hzero⟩
  | sig =>
    cases hkey
    obtain ⟨dataBytes, sigBytes, algBytes, hdata, hsig, halg, hzero⟩ := h
    exact ⟨dataBytes, sigBytes, algBytes, key, hdata, hsig, halg, ht, hcry.signature _ _ _ _ hzero⟩
  | none | nvCtr => trivial

omit hcry in
theorem readBuf_zero {s : State} {buf : Nat} (h : ∀ i, s.bufs buf i = 0) (len : Nat) :
    s.readBuf buf len = replicate len 0 := by
  apply ext_getElem
  · simp [State.readBuf]
  · simp [State.readBuf, h]

/-- A method of a child that passes, with the parent's buffers loaded: the parent image is rooted
and holds the key. -/
theorem Loaded.passesWith (h : Loaded P cot T u p pdesc) {given : Bytes} (hkey : m.key? = some t)
    (hgiv : authGetParam t pdesc u.state = some (.ok given)) (hpass : PassesWith P view given m) :
    ∃ e key tail, u.log.find? (·.writes pdesc.buffers) = some e ∧ e.outcome.rc = 0 ∧
      e.call.imgId = p ∧ Rooted P cot T p e.call.img ∧
      extracted P cot p e.call.img t = some key ∧ given = key ++ tail ∧
      PassesWith P view key m := by
  obtain ⟨d, hd, rfl, rfl⟩ := authGetParam_ok hgiv
  rcases h with hzero | ⟨e, he, hrc, hid, hroot, hpar⟩
  · rw [readBuf_zero (hzero d hd)] at hpass
    exact absurd hpass (not_passesWith_zero hcry (by simp [hkey]))
  · obtain ⟨key, tail, hext, hself, hbuf⟩ := hpar d hd
    have hlen : (key ++ tail).length = d.len := by rw [← hbuf, State.readBuf_length]
    rw [hbuf] at hpass
    refine ⟨e, key, tail, he, hrc, hid, hroot, hext, hbuf, hpass.of_append ?_⟩
    rw [hlen]
    exact hself

/-- A signature method of an image without a parent that passes rests on the root key. -/
theorem CheckOk.backedByRotpk (hch : ChainOk P cot) {s : State}
    (hpar : imgDesc.parent = none) (h : CheckOk P cot imgDesc view s m) :
    BackedByRotpk P T view m := by
  cases m with
  | hash =>
    obtain ⟨pdesc, given, hpd, -⟩ := authHash_zero h
    rw [parentDesc, hpar] at hpd
    cases hpd
  | sig pk =>
    obtain ⟨dataBytes, sigBytes, algBytes, hdata, hsig, halg, ⟨-, hrot⟩ | ⟨pdesc, given,
      hpd, -⟩⟩ := authSignature_zero h
    swap
    · rw [parentDesc, hpar] at hpd
      cases hpd
    unfold authRotpk at hrot
    cases hinfo : P.getRotpkInfo pk.cookie with
    | error err =>
      rw [hinfo] at hrot
      exact absurd (some.inj hrot) err.2
    | ok info =>
      refine ⟨dataBytes, sigBytes, algBytes, info, hdata, hsig, halg, hinfo, ?_⟩
      rw [hinfo] at hrot
      simp only [hch.deployed _ _ hinfo] at hrot
      by_cases hhash : info.isHash = true
      · rw [if_pos (by simp [hhash])] at hrot
        obtain ⟨key, hkey, hrot⟩ := bind_eq_zero hrot fun _ => rfl
        obtain ⟨rc, hver, hrot⟩ := bind_eq_some_iff.mp hrot
        split at hrot
        next hrc => exact absurd (some.inj hrot) hrc
        next hrc =>
          obtain rfl : rc = 0 := not_not.mp hrc
          exact .inr ⟨key, hkey, hcry.signature _ _ _ _ (cryptoModVerifySignature_zero hver),
            hcry.digest _ _ (cryptoModVerifyHash_zero hrot)⟩
      · rw [if_neg (by simp [hhash])] at hrot
        exact .inl (hcry.signature _ _ _ _ (cryptoModVerifySignature_zero hrot))
  | none | nvCtr => trivial

/-- **One call.** With the buffers loaded, a call that succeeds has checked its image against the
parent, and the image is rooted. -/
theorem fromParent_rooted_of_loaded (hch : ChainOk P cot)
    (hinv : AllLoaded P cot T u)
    (h : authModVerifyImg P cot call u.state = some o) (hrc : o.rc = 0) :
    FromParent P cot u call ∧ Rooted P cot T call.imgId call.img := by
  obtain ⟨hne, -⟩ | ⟨imgDesc, view, methods, auth, hdesc, hview, hmet, hauth, hend⟩ :=
    authModVerifyImg_cases h
  · exact absurd hrc hne
  have hauth_rc : auth.rc = 0 := by
    obtain ⟨hne, rfl⟩ | ⟨hauth_rc, -⟩ := hend
    · exact absurd hrc hne
    · exact hauth_rc
  have hchks := authMethods_checkOk hauth hauth_rc
  have hsome := hch.checked call.imgId imgDesc methods hdesc hmet
  -- what one method of a child has been checked against
  have hmeth : ∀ p m t, imgDesc.parent = some p → m ∈ methods → m.key? = some t →
      ∃ pdesc e key tail, cot p = some pdesc ∧
        u.log.find? (·.writes pdesc.buffers) = some e ∧ e.outcome.rc = 0 ∧ e.call.imgId = p ∧
        Rooted P cot T p e.call.img ∧ extracted P cot p e.call.img t = some key ∧
        authGetParam t pdesc u.state = some (.ok (key ++ tail)) ∧ PassesWith P view key m := by
    intro p m t hpar hm hkey
    obtain ⟨pdesc, given, hpd, hgiv, hpass⟩ := (hchks m hm).passesWith hkey hpar
    obtain ⟨e, key, tail, he, herc, hid, hroot, hext, rfl, hpass'⟩ :=
      (hinv p pdesc hpd).passesWith hcry hkey hgiv hpass
    exact ⟨pdesc, e, key, tail, hpd, he, herc, hid, hroot, hext, hgiv, hpass'⟩
  constructor
  · intro imgDesc' view' methods' p m t hdesc' hview' hmethods' hpar hm hkey
    obtain rfl : imgDesc = imgDesc' := some.inj (hdesc.symm.trans hdesc')
    obtain rfl : methods = methods' := some.inj (hmet.symm.trans hmethods')
    rw [hview] at hview'
    cases hview'
    obtain ⟨pdesc, e, key, tail, hpd, he, herc, hid, -, hext, hgiv, hpass⟩ :=
      hmeth p m t hpar hm hkey
    exact ⟨pdesc, e, key, tail, hpd, he, herc, hid, hext, hgiv, hpass⟩
  · cases hpar : imgDesc.parent with
    | none =>
      exact .root hdesc hpar hview hmet hsome
        fun m hm => (hchks m hm).backedByRotpk hcry hch hpar
    | some p =>
      obtain ⟨m₀, hm₀, hkey₀⟩ := hsome
      obtain ⟨t₀, ht₀⟩ := ne_none_iff_exists'.mp hkey₀
      obtain ⟨pdesc, e, -, -, hpd, he, -, -, hroot, -⟩ := hmeth p m₀ t₀ hpar hm₀ ht₀
      refine .child hdesc hpar hroot hview hmet ⟨m₀, hm₀, hkey₀⟩ fun m hm => ?_
      -- every other method has been checked against the same parent image
      cases hkey : m.key? with
      | none =>
        cases m with
        | hash | sig => cases hkey
        | none | nvCtr => trivial
      | some t =>
        obtain ⟨pdesc', e', key, -, hpdesc', he', -, -, -, hext, -, hpass⟩ :=
          hmeth p m t hpar hm hkey
        obtain rfl : pdesc = pdesc' := some.inj (hpd.symm.trans hpdesc')
        obtain rfl : e = e' := some.inj (he.symm.trans he')
        exact hpass.backed hcry hkey hext

end

/-- A call that copies nothing into the buffers of an image leaves them as they are. -/
theorem Loaded.of_not_copied (h : Loaded P cot T u p pdesc)
    (hcopy : ∀ buf ∈ pdesc.buffers, ∀ bytes, .copy buf bytes ∉ o.effects) :
    Loaded P cot T ⟨u.state.applyAll o.effects, ⟨call, o⟩ :: u.log⟩ p pdesc := by
  have hbufs : ∀ d, some d ∈ pdesc.entries →
      (u.state.applyAll o.effects).bufs d.buf = u.state.bufs d.buf :=
    fun d hd => State.applyAll_bufs_of_not_copied (hcopy d.buf (mem_buffers hd))
  have hwr : Entry.writes ⟨call, o⟩ pdesc.buffers = false := by
    refine any_eq_false.mpr fun e he => ?_
    cases e with
    | copy buf bytes =>
      have hbuf : buf ∉ pdesc.buffers := fun hbuf => hcopy buf hbuf bytes he
      simp [hbuf]
    | setNvCtr | authenticated => simp
  rcases h with hzero | ⟨e, he, hrc, hid, hroot, hpar⟩
  · exact .inl fun d hd i => by rw [hbufs d hd]; exact hzero d hd i
  · refine .inr ⟨e, ?_, hrc, hid, hroot, fun d hd => ?_⟩
    · rw [find?_cons, hwr]
      exact he
    · obtain ⟨key, tail, hext, hself, hbuf⟩ := hpar d hd
      refine ⟨key, tail, hext, hself, ?_⟩
      rw [State.readBuf, hbufs d hd]
      exact hbuf

/-- **Every call keeps the buffers loaded.** -/
theorem Loaded.step (hcry : CryptoSound P T) (hch : ChainOk P cot) (hpar : ParamsOk P cot call)
    (hinv : AllLoaded P cot T u)
    (h : authModVerifyImg P cot call u.state = some o) (hpd : cot p = some pdesc) :
    Loaded P cot T ⟨u.state.applyAll o.effects, ⟨call, o⟩ :: u.log⟩ p pdesc := by
  by_cases hrc : o.rc = 0
  · obtain rfl | hid := eq_or_ne call.imgId p
    · by_cases hent : ∃ d, some d ∈ pdesc.entries
      · -- the image of this call: its own parameters
        obtain ⟨d₀, hd₀⟩ := hent
        obtain ⟨view, key₀, -, hview, -, hcopy₀, -⟩ :=
          params_of_authModVerifyImg hch.separate h hrc hpd hd₀
        have hwr : Entry.writes ⟨call, o⟩ pdesc.buffers = true :=
          any_eq_true.mpr ⟨_, hcopy₀, by simpa using mem_buffers hd₀⟩
        refine .inr ⟨⟨call, o⟩, ?_, hrc, rfl,
          (fromParent_rooted_of_loaded hcry hch hinv h hrc).2, fun d hd => ?_⟩
        · rw [find?_cons, hwr]
        · obtain ⟨view', key, tail, hview', hfits, -, hbuf⟩ :=
            params_of_authModVerifyImg hch.separate h hrc hpd hd
          exact ⟨key, tail, extracted_eq_some hpd hview' hfits.1,
            (hpar pdesc view' hpd hview').2 d key hd hfits, hbuf⟩
      · exact .inl fun d hd => absurd ⟨d, hd⟩ hent
    · exact (hinv p pdesc hpd).of_not_copied
        fun buf hbuf bytes => bufs_of_other_image hch.separate h hid hpd hbuf bytes
  · -- a call that fails has copied nothing
    refine (hinv p pdesc hpd).of_not_copied fun buf _ bytes hmem => ?_
    obtain ⟨imgDesc, view, params, d, hdesc, hview, hext, hmem', hiff, -, -, -⟩ :=
      copy_of_authModVerifyImg h hmem
    have hnil := (hpar imgDesc view hdesc hview).1.effects_eq_nil hext (hrc ∘ hiff.mp)
    simp [hnil] at hmem'

/-! ### Sequences of calls -/

/-- **Every authenticated image is rooted.** Over every sequence of calls with images that hold
their parameters, a call that succeeds has checked its image against the parent image of the
latest call that wrote the parent's buffers, which succeeded; and its image is rooted in the
platform's root key. -/
theorem authenticated_image_rooted (P : Platform) (cot : Cot) (T : Truth)
    (hcrypto : CryptoSound P T) (hchain : ChainOk P cot) (nvCtr : Cookie → Nat)
    (calls : List Call) (hparams : ∀ call ∈ calls, ParamsOk P cot call) (u : Sys)
    (hrun : run (step P cot) (.boot nvCtr) calls = some u) (call : Call) (o : Outcome)
    (h : authModVerifyImg P cot call u.state = some o) (hrc : o.rc = 0) :
    FromParent P cot u call ∧ Rooted P cot T call.imgId call.img := by
  have hinv : AllLoaded P cot T u := by
    refine run_invariant_along (fun w c w' hw hc hstep p pdesc hpd => ?_)
      (fun p pdesc _ => .inl fun d _ i => rfl) (along_of_forall hparams) hrun
    obtain ⟨o', ho', hw'⟩ := bind_eq_some_iff.mp hstep
    cases hw'
    exact Loaded.step hcrypto hchain hc hw ho' hpd
  exact fromParent_rooted_of_loaded hcrypto hchain hinv h hrc

/-- One digest algorithm, with the OID `09`: the first byte of the data. -/
def firstByteMd : MdLib where
  oidGetMdAlg oid := if oid = [9] then some 0 else none
  mdInfoFromType _ := some ⟨1, fun data => some #v[data.headD 0]⟩

/-- A platform with the X.509 parser and `verify_hash`, which accepts every signature under a key
that is not zero. -/
def bootPlatform : Platform where
  parserLib := samplePlatform.parserLib
  crypto := mbedtlsLib firstByteMd fun _ _ _ pk => if pk.any (· ≠ 0) then 0 else 3
  getRotpkInfo := samplePlatform.getRotpkInfo

/-- The DER of a digest. -/
def digestInfo (digest : UInt8) : Bytes := [0x30, 8, 0x30, 3, 0x06, 1, 9, 0x04, 1, digest]

/-- The certificate of image 0, signed with the root key, of which two hashes are kept. -/
def rootDesc : AuthImgDesc where
  imgType := .cert
  parent := none
  imgAuthMethods := some [signedByRotpk]
  authenticatedData := some [some ⟨⟨.hash, 7⟩, 0, 10⟩, some ⟨⟨.hash, 8⟩, 1, 10⟩]

/-- A raw image that is checked against the first of the two hashes. -/
def rawDesc : AuthImgDesc where
  imgType := .raw
  parent := some 0
  imgAuthMethods := some [.hash ⟨.rawData, 0⟩ ⟨.hash, 7⟩]
  authenticatedData := none

/-- The two of them. -/
def twoImages : Cot := fun imgId =>
  if imgId = 0 then some rootDesc else if imgId = 1 then some rawDesc else none

/-- A call on a platform whose counters work. -/
def callOn (imgId : ImgId) (img : Bytes) : Call := ⟨imgId, img, fun _ => 0, fun _ => 0⟩

/-- An extension. -/
def hashExtension (oid : UInt8) (data : Bytes) : Bytes :=
  [0x30, UInt8.ofNat (data.length + 5), 0x06, 1, oid, 0x04, UInt8.ofNat data.length] ++ data

/-- The certificate with both hashes, and the one without the second. -/
def bothHashes : Call :=
  callOn 0 (X509.certWith (hashExtension 7 (digestInfo 1) ++ hashExtension 8 (digestInfo 2)))
def firstHashOnly : Call := callOn 0 (X509.certWith (hashExtension 7 (digestInfo 1)))

/-- The digests and signatures that the library accepts. -/
def bootTruth : Truth where
  digest data digestInfo := verifyHash firstByteMd data digestInfo = some 0
  signature data sig alg pk := bootPlatform.crypto.verifySignature data sig alg pk = 0

theorem bootPlatform_sound : CryptoSound bootPlatform bootTruth where
  digest _ _ h := mbedtlsLib_verifyHash h
  signature _ _ _ _ h := h
  zero_digest data len h := by
    have hzero := verifyHash_zero firstByteMd data len
    rw [mbedtlsLib_verifyHash h] at hzero
    cases hzero
  zero_key data sig alg len := by simp [bootPlatform, mbedtlsLib]

theorem twoImages_cases {imgId : ImgId} (h : twoImages imgId = some imgDesc) :
    (imgId = 0 ∧ imgDesc = rootDesc) ∨ (imgId = 1 ∧ imgDesc = rawDesc) := by
  unfold twoImages at h
  split at h
  next h0 => exact .inl ⟨h0, (some.inj h).symm⟩
  next h0 =>
    split_ifs at h with h1
    exact .inr ⟨h1, (some.inj h).symm⟩

theorem twoImages_separate : Separate twoImages where
  nodup imgId imgDesc h := by
    rcases twoImages_cases h with ⟨-, rfl⟩ | ⟨-, rfl⟩ <;> decide
  disjoint imgId imgId' imgDesc imgDesc' h h' hne := by
    rcases twoImages_cases h with ⟨rfl, rfl⟩ | ⟨rfl, rfl⟩ <;>
      rcases twoImages_cases h' with ⟨rfl, rfl⟩ | ⟨rfl, rfl⟩
    · exact absurd rfl hne
    · decide
    · decide
    · exact absurd rfl hne

theorem twoImages_chainOk : ChainOk bootPlatform twoImages where
  separate := twoImages_separate
  checked imgId imgDesc methods h hmeth := by
    rcases twoImages_cases h with ⟨-, rfl⟩ | ⟨-, rfl⟩ <;> cases hmeth
    · exact ⟨signedByRotpk, mem_cons_self, by decide⟩
    · exact ⟨_, mem_cons_self, by decide⟩
  deployed cookie info h := by
    cases h
    rfl

/-- Both hashes are found, and fill their buffers. -/
theorem bothHashes_params
    (hview : imgParserCheckIntegrity bootPlatform .cert bothHashes.img = some (.ok view)) :
    getAuthParam view ⟨.hash, 7⟩ = some (.ok (digestInfo 1)) ∧
      getAuthParam view ⟨.hash, 8⟩ = some (.ok (digestInfo 2)) := by
  have hall : (imgParserCheckIntegrity bootPlatform .cert bothHashes.img).all (fun r =>
      match r with
      | .ok view => decide (getAuthParam view ⟨.hash, 7⟩ = some (.ok (digestInfo 1)) ∧
          getAuthParam view ⟨.hash, 8⟩ = some (.ok (digestInfo 2)))
      | .error _ => true) = true := by decide +kernel
  rw [hview] at hall
  exact of_decide_eq_true hall

theorem bothHashes_paramsOk : ParamsOk bootPlatform twoImages bothHashes := by
  intro imgDesc view hdesc hview
  obtain rfl : rootDesc = imgDesc := some.inj hdesc
  obtain ⟨h7, h8⟩ := bothHashes_params hview
  have hfits : ∀ d, some d ∈ rootDesc.entries →
      ∃ bytes, Fits view d bytes ∧ bytes.length = d.len := by
    intro d hd
    simp only [rootDesc, AuthImgDesc.entries, getD_some, mem_cons, some.injEq,
      not_mem_nil, or_false] at hd
    rcases hd with rfl | rfl
    · exact ⟨digestInfo 1, ⟨h7, by decide⟩, rfl⟩
    · exact ⟨digestInfo 2, ⟨h8, by decide⟩, rfl⟩
  refine ⟨.inl fun d hd => (hfits d hd).imp fun _ h => h.1, fun d key hd hkey tail htail => ?_⟩
  -- both hashes fill their buffers, so nothing follows them
  obtain ⟨bytes, hby, hlen⟩ := hfits d hd
  obtain rfl : bytes = key := Except.ok.inj (some.inj (hby.1.symm.trans hkey.1))
  obtain rfl : tail = [] := by
    rw [length_append] at htail
    exact length_eq_zero_iff.mp (by omega)
  simp

theorem authenticated_image_rooted_bothHashes :
    ∃ u o, run (step bootPlatform twoImages) (.boot fun _ => 0) [bothHashes] = some u ∧
      authModVerifyImg bootPlatform twoImages (callOn 1 [1, 5]) u.state = some o ∧
      o.rc = 0 ∧ FromParent bootPlatform twoImages u (callOn 1 [1, 5]) ∧
      Rooted bootPlatform twoImages bootTruth 1 [1, 5] := by
  simp only [exists_and_left]
  refine exists_some_imp (q := fun u =>
    ∃ o, authModVerifyImg bootPlatform twoImages (callOn 1 [1, 5]) u.state = some o ∧ o.rc = 0)
    (by decide +kernel) fun u hrun ⟨o, ho, hrc⟩ => ⟨o, ho, hrc, ?_⟩
  exact authenticated_image_rooted bootPlatform twoImages bootTruth bootPlatform_sound
    twoImages_chainOk (fun _ => 0) [bothHashes] (by simpa using bothHashes_paramsOk) u hrun _ o ho
    hrc

/-- The certificate without the second hash is rejected, but its first hash has been copied: the
child is accepted, although no call on its parent has ever succeeded. -/
theorem child_of_rejected_parent :
    ∃ u o, run (step bootPlatform twoImages) (.boot fun _ => 0) [firstHashOnly] = some u ∧
      (∀ e ∈ u.log, e.outcome.rc ≠ 0) ∧
      authModVerifyImg bootPlatform twoImages (callOn 1 [1, 5]) u.state = some o ∧
      o.rc = 0 ∧ ¬ FromParent bootPlatform twoImages u (callOn 1 [1, 5]) := by
  simp only [exists_and_left]
  refine exists_some_imp (q := fun u => (∀ e ∈ u.log, e.outcome.rc ≠ 0) ∧
    ∃ o, authModVerifyImg bootPlatform twoImages (callOn 1 [1, 5]) u.state = some o ∧ o.rc = 0)
    (by decide +kernel) fun u _ ⟨hfai, o, ho, hrc⟩ => ⟨hfai, o, ho, hrc, fun hfrom => ?_⟩
  obtain ⟨pdesc, e, -, -, -, he, herc, -⟩ := hfrom rawDesc (rawView [1, 5]) _ 0 _ ⟨.hash, 7⟩
    rfl rfl rfl rfl mem_cons_self rfl
  exact hfai e (mem_of_find?_eq_some he) herc

end TrustedFirmware.Auth
