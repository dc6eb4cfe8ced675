import TrustedFirmware.Auth.Verify
import TrustedFirmware.Auth.Extensions

/-!
# The rollback counters

A call never lowers a counter of the platform, and raises one only to the number in an
image whose signature has been checked in the same call (`nv_counter_authentic`, with
the methods listed signature first).

That number is meant to be a DER integer in the parameter that the parser returns.
`auth_nvctr` reads it from the pointer alone and never looks at the length of the
parameter, so it stays inside the parameter, and accepts only a complete integer, exactly
if the integer's own length says what the parameter's length says (`Delimited`).
-/

namespace TrustedFirmware.Auth

open Lib List Option State UInt8

/-! ### The parameter -/

/-- The number in some bytes, the first one the most significant. -/
def counterValue (bytes : Bytes) : Nat := bytes.foldl (fun acc b => acc * 2 ^ 8 + b.toNat) 0

/-- A complete DER INTEGER of 1 to 4 bytes that is not negative, and its value. -/
def IsCounter (bytes : Bytes) (value : Nat) : Prop :=
  ∃ first rest, bytes = 0x02 :: ofNat (rest.length + 1) :: first :: rest ∧
    rest.length + 1 ≤ 4 ∧ first.toNat < 0x80 ∧ value = counterValue (first :: rest)

/-- The parse stays inside `bytes`, and what it accepts ends with them. -/
def Delimited : Bytes → Prop
  | [] => False
  | [tag] => tag ≠ 0x02
  | [tag, len] => tag ≠ 0x02 ∨ 4 < len.toNat
  | tag :: len :: first :: rest =>
    tag ≠ 0x02 ∨ 4 < len.toNat ∨ 0x80 ≤ first.toNat ∨ len.toNat = rest.length + 1

instance : ∀ bytes, Decidable (Delimited bytes)
  | [] => isFalse id
  | [_] => inferInstanceAs (Decidable (_ ≠ _))
  | [_, _] => inferInstanceAs (Decidable (_ ∨ _))
  | _ :: _ :: _ :: _ => inferInstanceAs (Decidable (_ ∨ _ ∨ _ ∨ _))

/-- What `auth_nvctr` should do with a parameter of which `bytes` are the bytes: on those alone
it does what it does, so it reads no others; and if it accepts, they are a complete counter,
whose value it has compared with the platform's. -/
structure NvctrOk (param : Param) (bytes : Bytes) : Prop where
  reads : ∀ c p call s, ∃ o, authNvctr c p (fun _ => some (.ok param)) call s = some o ∧
    authNvctr c p (fun _ => some (.ok ⟨bytes, bytes.length⟩)) call s = some o
  accepts : ∀ c p call s o, authNvctr c p (fun _ => some (.ok param)) call s = some o →
    o.rc = 0 → ∃ v, IsCounter bytes v ∧ s.nvCtr p.cookie ≤ v ∧
      (s.applyAll o.effects).nvCtr p.cookie = v

variable {bytes : Bytes} {q : Param} {o : Outcome} {k : Cookie}

theorem nvCtrValue_eq_foldl {len : Nat} {bs : Bytes} {acc k : Nat} (hlen : len ≤ bs.length)
    (hacc : acc < 2 ^ (8 * k)) (hk : k + len ≤ 4) :
    nvCtrValue len bs acc =
    some ((bs.take len).foldl (fun acc b => acc * 2 ^ 8 + b.toNat) acc) := by
  induction len generalizing bs acc k with
  | zero => simp [nvCtrValue]
  | succ len ih =>
    cases bs with
    | nil => simp at hlen
    | cons b =>
      have hb : b.toNat < 2 ^ 8 := b.toNat_lt
      have hnext : acc * 2 ^ 8 + b.toNat < 2 ^ (8 * (k + 1)) := by
        rw [show 8 * (k + 1) = 8 * k + 8 by omega, pow_add]
        omega
      have hword : acc * 2 ^ 8 + b.toNat < 2 ^ 32 :=
        hnext.trans_le (Nat.pow_le_pow_right (by decide) (by omega))
      rw [nvCtrValue, Nat.mod_eq_of_lt hword, ih (by simpa using hlen) hnext (by omega)]
      rfl

theorem nvCtrValue_eq_none {len : Nat} {bs : Bytes} {acc : Nat} (h : bs.length < len) :
    nvCtrValue len bs acc = none := by
  induction len generalizing bs acc with
  | zero => omega
  | succ len ih =>
    cases bs with
    | nil => rfl
    | cons => exact ih (by simpa using h)

/-- The number is read when the header is that of a short, nonnegative integer. -/
theorem parseNvCtr_integer {len first : UInt8} {rest : Bytes} (hlen : len.toNat ≤ 4)
    (hfst : first.toNat < 0x80) :
    parseNvCtr (0x02 :: len :: first :: rest) =
      (nvCtrValue len.toNat (first :: rest) 0).map .ok := by
  have hlen' : ¬ 4 < len.toNat := by omega
  have hfirst' : ¬ 0x80 ≤ first.toNat := by omega
  simp only [parseNvCtr, getElem?_cons_zero, getElem?_cons_succ, bind_eq_bind,
    bind_some, ne_eq, not_true, if_false, hlen', hfirst', drop_succ_cons,
    drop_zero]
  cases nvCtrValue len.toNat (first :: rest) 0 <;> rfl

/-- A delimited parameter is read alike whatever follows it, and is a counter if it is
accepted. -/
theorem parseNvCtr_of_delimited (h : Delimited bytes) (tail : Bytes) :
    ∃ r, parseNvCtr bytes = some r ∧ parseNvCtr (bytes ++ tail) = some r ∧
      ∀ v, r = .ok v → IsCounter bytes v := by
  match bytes, h with
  | [tag], h =>
    have h : tag ≠ 0x02 := h
    exact ⟨.error .one, by simp [parseNvCtr, h], by simp [parseNvCtr, h], by simp⟩
  | [tag, len], h =>
    by_cases htag : tag ≠ 0x02
    · exact ⟨.error .one, by simp [parseNvCtr, htag], by simp [parseNvCtr, htag], by simp⟩
    · have hlen : 4 < len.toNat := h.resolve_left htag
      have htag : tag = 0x02 := not_not.mp htag
      exact ⟨.error .one, by simp [parseNvCtr, htag, hlen], by simp [parseNvCtr, htag, hlen],
        by simp⟩
  | tag :: len :: first :: rest, h =>
    by_cases htag : tag ≠ 0x02
    · exact ⟨.error .one, by simp [parseNvCtr, htag], by simp [parseNvCtr, htag], by simp⟩
    obtain rfl : tag = 0x02 := not_not.mp htag
    by_cases hlen : 4 < len.toNat
    · exact ⟨.error .one, by simp [parseNvCtr, hlen], by simp [parseNvCtr, hlen], by simp⟩
    by_cases hfst : 0x80 ≤ first.toNat
    · exact ⟨.error .one, by simp [parseNvCtr, hfst], by simp [parseNvCtr, hfst], by simp⟩
    have hsame : len.toNat = rest.length + 1 :=
      ((h.resolve_left htag).resolve_left hlen).resolve_left hfst
    have hval : ∀ tail', nvCtrValue len.toNat (first :: (rest ++ tail')) 0 =
        some (counterValue (first :: rest)) := by
      intro tail'
      rw [nvCtrValue_eq_foldl (k := 0) (by simp; omega) (by simp) (by omega), hsame,
        take_succ_cons, take_left]
      rfl
    refine ⟨.ok (counterValue (first :: rest)), ?_, ?_, ?_⟩
    · have hself : nvCtrValue len.toNat (first :: rest) 0 =
          some (counterValue (first :: rest)) := by simpa using hval []
      rw [parseNvCtr_integer (by omega) (by omega), hself]
      rfl
    · rw [cons_append, cons_append, cons_append,
        parseNvCtr_integer (by omega) (by omega), hval tail]
      rfl
    · intro v hv
      obtain rfl := Except.ok.inj hv
      refine ⟨first, rest, ?_, by omega, by omega, rfl⟩
      rw [← hsame, UInt8.ofNat_toNat]

/-- What is left of a parameter that is not delimited: the parse runs past its end, or accepts
a number that does not end with it. -/
theorem delimited_of_parseNvCtr (tail : Bytes) (hrds : parseNvCtr bytes ≠ none)
    (hacc : ∀ v, parseNvCtr (bytes ++ tail) = some (.ok v) → ∃ v', IsCounter bytes v') :
    Delimited bytes := by
  match bytes with
  | [] => exact hrds rfl
  | [tag] =>
    intro htag
    exact hrds (by simp [parseNvCtr, htag])
  | [tag, len] =>
    by_cases htag : tag ≠ 0x02
    · exact .inl htag
    refine .inr (not_le.mp fun hlen => hrds ?_)
    simp [parseNvCtr, not_not.mp htag, not_lt.mpr hlen]
  | tag :: len :: first :: rest =>
    by_cases htag : tag ≠ 0x02
    · exact .inl htag
    obtain rfl : tag = 0x02 := not_not.mp htag
    by_cases hlen : 4 < len.toNat
    · exact .inr (.inl hlen)
    by_cases hfst : 0x80 ≤ first.toNat
    · exact .inr (.inr (.inl hfst))
    refine .inr (.inr (.inr ?_))
    have hfits : len.toNat ≤ rest.length + 1 := by
      refine not_lt.mp fun hlong => hrds ?_
      rw [parseNvCtr_integer (by omega) (by omega), nvCtrValue_eq_none (by simpa using hlong)]
      rfl
    obtain ⟨v, hprs⟩ : ∃ v, parseNvCtr (0x02 :: len :: first :: rest ++ tail) = some (.ok v) := by
      rw [cons_append, cons_append, cons_append, parseNvCtr_integer (by omega) (by omega),
        nvCtrValue_eq_foldl (k := 0) (by simp; omega) (by simp) (by omega)]
      exact ⟨_, rfl⟩
    obtain ⟨v', first', rest', heq, hsh, -⟩ := hacc v hprs
    obtain ⟨-, hlen', -, rfl⟩ : (0x02 : UInt8) = 0x02 ∧ len = ofNat (rest'.length + 1) ∧
      first = first' ∧ rest = rest' := by simpa using heq
    rw [hlen', toNat_ofNat_of_lt' (by unfold size; omega)]

variable {c p : AuthParamTypeDesc} {call : Call} {s : State}

theorem authNvctr_congr {q' : Param} (h : parseNvCtr q'.ptr = parseNvCtr q.ptr) :
    authNvctr c p (fun _ => some (.ok q')) call s =
      authNvctr c p (fun _ => some (.ok q)) call s := by
  simp [authNvctr, h]

theorem exists_authNvctr (c p : AuthParamTypeDesc) (call : Call) (s : State)
    {r : Except Err Nat} (h : parseNvCtr q.ptr = some r) :
    ∃ o, authNvctr c p (fun _ => some (.ok q)) call s = some o := by
  simp only [authNvctr, bind_eq_bind, bind_some, h]
  cases r with
  | error => exact ⟨_, rfl⟩
  | ok v =>
    dsimp only
    split_ifs <;> exact ⟨_, rfl⟩

/-- The counter after `auth_nvctr` has accepted is the number it has read. -/
theorem authNvctr_accepts
    (h : authNvctr c p (fun _ => some (.ok q)) call s = some o) (hrc : o.rc = 0) :
    ∃ v, parseNvCtr q.ptr = some (.ok v) ∧ s.nvCtr p.cookie ≤ v ∧
      (s.applyAll o.effects).nvCtr p.cookie = v := by
  obtain ⟨hne, -⟩ | ⟨q', v, hview, hprs, -, ⟨hv, heff⟩ | ⟨hlt, heff⟩⟩ := authNvctr_cases h
  · exact absurd hrc hne
  · cases hview
    exact ⟨v, hprs, le_of_eq hv.symm, by rw [heff, hv]; rfl⟩
  · cases hview
    exact ⟨v, hprs, hlt.le, by rw [heff]; simp [applyAll, apply]⟩

theorem Param.content_append (h : q.content = some bytes) : bytes ++ q.ptr.drop q.len = q.ptr := by
  unfold Param.content at h
  split_ifs at h with hle
  cases h
  exact take_append_drop _ _

/-- `auth_nvctr` is right about a parameter exactly if the parameter is delimited. -/
theorem nvctrOk_iff {param : Param} (h : param.content = some bytes) :
    NvctrOk param bytes ↔ Delimited bytes := by
  obtain ⟨tail, htail⟩ : ∃ tail, param.ptr = bytes ++ tail := ⟨_, (Param.content_append h).symm⟩
  constructor
  · intro hok
    let call : Call := ⟨0, [], fun _ => 0, fun _ => 0⟩
    let t : AuthParamTypeDesc := ⟨.nvCtr, 0⟩
    have hzero : (cleared fun _ => 0).nvCtr 0 = 0 := rfl
    refine delimited_of_parseNvCtr tail (fun hnone => ?_) fun v hv => ?_
    · obtain ⟨o, -, ho⟩ := hok.reads t t call (.cleared fun _ => 0)
      simp [authNvctr, hnone] at ho
    · rw [← htail] at hv
      obtain ⟨o, ho⟩ := exists_authNvctr t t call (.cleared fun _ => 0) hv
      have hrc : o.rc = 0 := by
        simp only [authNvctr, bind_eq_bind, bind_some, hv] at ho
        by_cases hpos : 0 < v
        · simp [call, t, hzero, hpos] at ho
          rw [← ho]
        · simp [call, t, hzero, hpos] at ho
          rw [← ho]
      obtain ⟨v', hv', -⟩ := hok.accepts t t call _ o ho hrc
      exact ⟨v', hv'⟩
  · intro hdel
    obtain ⟨r, hr, hr', hctr⟩ := parseNvCtr_of_delimited hdel tail
    rw [← htail] at hr'
    refine ⟨fun c p call s => ?_, fun c p call s o ho hrc => ?_⟩
    · obtain ⟨o, ho⟩ := exists_authNvctr c p call s hr'
      exact ⟨o, ho, (authNvctr_congr (hr.trans hr'.symm)).trans ho⟩
    · obtain ⟨v, hv, hle, hset⟩ := authNvctr_accepts ho hrc
      rw [hr'] at hv
      exact ⟨v, hctr v (some.inj hv), hle, hset⟩

/-! ### The counters of the platform -/

/-- Every counter method stands behind a signature method. -/
def SignatureFirst (cot : Cot) : Prop :=
  ∀ imgId imgDesc methods pre c p post, cot imgId = some imgDesc →
    imgDesc.imgAuthMethods = some methods → methods = pre ++ .nvCtr c p :: post →
    ∃ pk sig alg data, .sig pk sig alg data ∈ pre

/-- The counter `k` is raised to `v` by a call whose image has passed a signature check in the
same call, and `v` is what `auth_nvctr` has read in that image: the value of a complete
counter, if the parameter is delimited. -/
def RaisedFromSigned (P : Platform) (cot : Cot) (call : Call) (s : State) (k : Cookie) (v : Nat) :
    Prop :=
  ∃ imgDesc view methods c p param pk sig alg data, cot call.imgId = some imgDesc ∧
    imgParserCheckIntegrity P imgDesc.imgType call.img = some (.ok view) ∧
    imgDesc.imgAuthMethods = some methods ∧
    .sig pk sig alg data ∈ methods ∧ authSignature P cot pk sig alg data imgDesc view s = some 0 ∧
    .nvCtr c p ∈ methods ∧ p.cookie = k ∧ view c = some (.ok param) ∧
    parseNvCtr param.ptr = some (.ok v) ∧
    ∀ bytes, param.content = some bytes → Delimited bytes → IsCounter bytes v

variable {P : Platform} {cot : Cot} {imgDesc : AuthImgDesc} {view : View}

theorem authMethod_nvCtr_le {s : State} {m : AuthMethod}
    (h : authMethod P cot imgDesc view call s m = some o) (k : Cookie) :
    s.nvCtr k ≤ (s.applyAll o.effects).nvCtr k := by
  rcases authMethod_effects h with heff | ⟨c, p, param, v, -, -, -, hlt, heff⟩
  · simp [heff]
  · rw [heff]
    obtain rfl | hk := eq_or_ne k p.cookie
    · simpa [applyAll, apply] using hlt.le
    · simp [apply, hk]

theorem authMethods_nvCtr_le (k : Cookie) {ms : List AuthMethod} {s : State} {o : Outcome}
    (h : authMethods P cot imgDesc view call ms s = some o) :
    s.nvCtr k ≤ (s.applyAll o.effects).nvCtr k := by
  induction ms generalizing s o with
  | nil =>
    cases h
    simp
  | cons m ms ih =>
    obtain ⟨o₁, ho₁, ⟨-, rfl⟩ | ⟨-, o₂, ho₂, rfl⟩⟩ := authMethods_cons h
    · exact authMethod_nvCtr_le ho₁ k
    · rw [applyAll_append]
      exact le_trans (authMethod_nvCtr_le ho₁ k) (ih ho₂)

/-- A counter is raised by a counter method, after every method before it has passed its
check. -/
theorem authMethods_raises {v : Nat} {ms : List AuthMethod} {s : State} {o : Outcome}
    (h : authMethods P cot imgDesc view call ms s = some o) (hmem : .setNvCtr k v ∈ o.effects) :
    ∃ pre c p post param, ms = pre ++ .nvCtr c p :: post ∧ p.cookie = k ∧
    view c = some (.ok param) ∧ parseNvCtr param.ptr = some (.ok v) ∧
    ∀ m ∈ pre, CheckOk P cot imgDesc view s m := by
  induction ms generalizing s o with
  | nil =>
    cases h
    simp at hmem
  | cons m ms ih =>
    have hfst : ∀ {o₁}, authMethod P cot imgDesc view call s m = some o₁ →
        .setNvCtr k v ∈ o₁.effects → ∃ pre c p post param, m :: ms = pre ++ .nvCtr c p :: post ∧
          p.cookie = k ∧ view c = some (.ok param) ∧ parseNvCtr param.ptr = some (.ok v) ∧
          ∀ m ∈ pre, CheckOk P cot imgDesc view s m := by
      intro o₁ ho₁ hmem₁
      rcases authMethod_effects ho₁ with heff | ⟨c, p, param, v', rfl, hview, hprs, -, heff⟩
      · simp [heff] at hmem₁
      · rw [heff, mem_singleton] at hmem₁
        obtain ⟨rfl, rfl⟩ := Effect.setNvCtr.inj hmem₁
        exact ⟨[], c, p, ms, param, rfl, rfl, hview, hprs, by simp⟩
    obtain ⟨o₁, ho₁, ⟨-, rfl⟩ | ⟨hrc₁, o₂, ho₂, rfl⟩⟩ := authMethods_cons h
    · exact hfst ho₁ hmem
    rcases mem_append.mp hmem with hmem | hmem
    · exact hfst ho₁ hmem
    obtain ⟨pre, c, p, post, param, rfl, hk, hview, hprs, hpre⟩ := ih ho₂ hmem
    refine ⟨m :: pre, c, p, post, param, rfl, hk, hview, hprs,
      forall_mem_cons.mpr ⟨authMethod_checkOk ho₁ hrc₁, fun m' hm' => ?_⟩⟩
    exact (checkOk_congr (applyAll_bufs (authMethod_copies ho₁)) m').mp (hpre m' hm')

theorem extractParams_no_setNvCtr {view : View} {ds : List (Option AuthParamDesc)}
    (h : extractParams view ds = some o) : ∀ e ∈ o.effects, ∀ k v, e ≠ .setNvCtr k v := by
  intro e he k v
  obtain ⟨d, bytes, -, -, -, rfl⟩ := extractParams_copies h e he
  exact Effect.noConfusion

section

variable (h : authModVerifyImg P cot call s = some o)
include h

/-- A call sets the counters that its methods set. -/
theorem authModVerifyImg_counters :
    o.effects = [] ∨ ∃ imgDesc view methods auth, cot call.imgId = some imgDesc ∧
      imgParserCheckIntegrity P imgDesc.imgType call.img = some (.ok view) ∧
      imgDesc.imgAuthMethods = some methods ∧
      authMethods P cot imgDesc view call methods s = some auth ∧
      ∃ es, o.effects = auth.effects ++ es ∧ ∀ e ∈ es, ∀ k v, e ≠ .setNvCtr k v := by
  obtain ⟨-, heff⟩ | ⟨imgDesc, view, methods, auth, hdesc, hview, hmeth, hauth, hend⟩ :=
    authModVerifyImg_cases h
  · exact .inl heff
  refine .inr ⟨imgDesc, view, methods, auth, hdesc, hview, hmeth, hauth, ?_⟩
  obtain ⟨-, rfl⟩ | ⟨-, params, hpar, ⟨-, rfl⟩ | ⟨-, rfl⟩⟩ := hend
  · exact ⟨[], by simp, by simp⟩
  · exact ⟨params.effects, rfl, extractParams_no_setNvCtr hpar⟩
  · exact ⟨params.effects ++ [.authenticated call.imgId], append_assoc _ _ _,
      forall_mem_append.mpr ⟨extractParams_no_setNvCtr hpar, by simp⟩⟩

theorem authModVerifyImg_nvCtr_le (k : Cookie) : s.nvCtr k ≤ (s.applyAll o.effects).nvCtr k := by
  obtain heff | ⟨imgDesc, view, methods, auth, -, -, -, hauth, es, heff, hes⟩ :=
    authModVerifyImg_counters h
  · simp [heff]
  · rw [heff, applyAll_append, applyAll_nvCtr hes]
    exact authMethods_nvCtr_le k hauth

theorem authModVerifyImg_raises (hfst : SignatureFirst cot) {v : Nat}
    (hmem : .setNvCtr k v ∈ o.effects) : RaisedFromSigned P cot call s k v := by
  obtain heff | ⟨imgDesc, view, methods, auth, hdesc, hview, hmeth, hauth, es, heff, hes⟩ :=
    authModVerifyImg_counters h
  · simp [heff] at hmem
  rw [heff] at hmem
  have hmem : .setNvCtr k v ∈ auth.effects :=
    (mem_append.mp hmem).resolve_right fun hmem => hes _ hmem k v rfl
  obtain ⟨pre, c, p, post, param, rfl, hk, hpar, hprs, hpre⟩ := authMethods_raises hauth hmem
  obtain ⟨pk, sig, alg, data, hsig⟩ :=
    hfst call.imgId imgDesc _ pre c p post hdesc hmeth rfl
  refine ⟨imgDesc, view, _, c, p, param, pk, sig, alg, data, hdesc, hview, hmeth,
    mem_append_left _ hsig, hpre _ hsig, mem_append_right _ mem_cons_self, hk,
    hpar, hprs, fun bytes hby hdel => ?_⟩
  -- the number that has been read is the one that a delimited parameter holds
  obtain ⟨r, -, hr, hctr⟩ := parseNvCtr_of_delimited hdel (param.ptr.drop param.len)
  rw [Param.content_append hby, hprs] at hr
  exact hctr v (some.inj hr).symm

end

/-- **The rollback counters.** Over every sequence of calls no counter of the platform becomes
lower; a call raises one only to the number in an image whose signature it has checked; and
`auth_nvctr` keeps to the parameter, and accepts only a complete counter, exactly if the
parameter is delimited. -/
theorem nv_counter_authentic (P : Platform) (cot : Cot) (hfirst : SignatureFirst cot)
    (calls : List Call) (u u' : Sys) (hrun : run (step P cot) u calls = some u') :
    (∀ k, u.state.nvCtr k ≤ u'.state.nvCtr k) ∧
    (∀ call o, authModVerifyImg P cot call u'.state = some o →
      ∀ k v, .setNvCtr k v ∈ o.effects → RaisedFromSigned P cot call u'.state k v) ∧
    ∀ param bytes, param.content = some bytes → (NvctrOk param bytes ↔ Delimited bytes) := by
  refine ⟨fun k => ?_, fun call o h k v hmem => authModVerifyImg_raises h hfirst hmem,
    fun param bytes h => nvctrOk_iff h⟩
  refine @run_invariant _ _ _ (fun w => u.state.nvCtr k ≤ w.state.nvCtr k)
    (fun w call w' hw hstep => ?_) _ _ _ le_rfl hrun
  obtain ⟨o, ho, hw'⟩ := bind_eq_some_iff.mp hstep
  cases hw'
  exact hw.trans (authModVerifyImg_nvCtr_le ho k)

/-- A platform with the X.509 parser, whose crypto library takes data for its own digest and
accepts every signature, under no key that is zero. -/
def samplePlatform : Platform where
  parserLib imgType := if imgType = .cert then some (X509.x509Lib X509.plainOids) else none
  crypto := {
    verifySignature := fun _ _ _ pk => if pk.any (· ≠ 0) then 0 else 3
    verifyHash := fun data digestInfo =>
      if data.isPrefixOf digestInfo ∧ digestInfo.any (· ≠ 0) then 0 else 2 }
  getRotpkInfo _ := .ok ⟨[1], false, false⟩

/-- `subject_pk`, `sig`, `sig_alg` and `raw_data` -/
def signedByRotpk : AuthMethod := .sig ⟨.pubKey, 0⟩ ⟨.sig, 0⟩ ⟨.sigAlg, 0⟩ ⟨.rawData, 0⟩

/-- A chain of one certificate with a counter, in the extension `07`. -/
def counterCot : Cot := fun imgId =>
  if imgId = 0 then
    some ⟨.cert, none, some [signedByRotpk, .nvCtr ⟨.nvCtr, 7⟩ ⟨.nvCtr, 7⟩], none⟩
  else none

/-- The certificate with an extension whose data is `data`, verified on a platform whose
counters work. -/
def counterCall (data : Bytes) : Call where
  imgId := 0
  img := X509.certWith ([0x30, ofNat (data.length + 5), 0x06, 1, 7, 0x04,
    ofNat data.length] ++ data)
  getNvCtrRc _ := 0
  setNvCtrRc _ := 0

theorem counterCot_signatureFirst : SignatureFirst counterCot := by
  intro imgId imgDesc methods pre c p post hdesc hmeth heq
  rw [counterCot] at hdesc
  split at hdesc
  next hid =>
    cases hdesc
    cases hmeth
    cases pre with
    | nil => simp [signedByRotpk] at heq
    | cons m =>
      obtain ⟨rfl, -⟩ : signedByRotpk = m ∧ _ := by simpa using heq
      exact ⟨_, _, _, _, mem_cons_self⟩
  next hid => cases hdesc

/-- A counter of one byte, 5, is accepted and raises the platform's, and the next one, 9, does so
again. -/
theorem nv_counter_authentic_five : ∃ u',
    run (step samplePlatform counterCot) (.boot fun _ => 3) [counterCall [0x02, 1, 5]] = some u' ∧
    u'.state.nvCtr 7 = 5 ∧ (∀ k, 3 ≤ u'.state.nvCtr k) ∧
    RaisedFromSigned samplePlatform counterCot (counterCall [0x02, 1, 9]) u'.state 7 9 ∧
    NvctrOk ⟨[0x02, 1, 5, 0x30], 3⟩ [0x02, 1, 5] := by
  refine exists_some_imp (q := fun u' => u'.state.nvCtr 7 = 5 ∧ ∃ o, authModVerifyImg samplePlatform
    counterCot (counterCall [0x02, 1, 9]) u'.state = some o ∧ .setNvCtr 7 9 ∈ o.effects)
    (by decide +kernel) fun u' hrun ⟨hfive, o, ho, hnine⟩ => ?_
  obtain ⟨hle, hraised, hnvctr⟩ :=
    nv_counter_authentic samplePlatform counterCot counterCot_signatureFirst _ _ _ hrun
  exact ⟨hfive, hle, hraised _ o ho 7 9 hnine, (hnvctr _ _ rfl).mpr (by decide)⟩

/-- The extension holds the two bytes `02 04` of a counter's header: `auth_nvctr` takes the four
bytes that follow in the certificate for the counter, and the platform's is raised to their
value. -/
theorem truncated_counter_accepted :
    (∃ view, imgParserCheckIntegrity samplePlatform .cert (counterCall [0x02, 4]).img =
      some (.ok view) ∧ view ⟨.nvCtr, 7⟩ = some (.ok ⟨[0x02, 4, 0x30, 0, 0x03, 0], 2⟩)) ∧
    (∃ o, authModVerifyImg samplePlatform counterCot (counterCall [0x02, 4])
      (.cleared fun _ => 0) = some o ∧ o.rc = 0 ∧ .setNvCtr 7 0x30000300 ∈ o.effects) ∧
    (∀ v, ¬ IsCounter [0x02, 4] v) ∧ ¬ NvctrOk ⟨[0x02, 4, 0x30, 0, 0x03, 0], 2⟩ [0x02, 4] := by
  refine ⟨⟨_, rfl, rfl⟩, by decide +kernel, ?_, ?_⟩
  · rintro v ⟨first, rest, heq, -⟩
    simp at heq
  · rw [nvctrOk_iff rfl]
    decide

end TrustedFirmware.Auth
