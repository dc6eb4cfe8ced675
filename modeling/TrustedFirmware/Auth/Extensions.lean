import Mathlib.Data.Fintype.EquivFin
import TrustedFirmware.Auth.X509

/-!
# What `get_ext` finds in a certificate that `cert_parse` has accepted

The integrity check walks through the extensions up to the end of the
TBSCertificate and only asks that every element ends there at the latest;
`Extensions` is the list of extensions that it has seen. `get_ext` walks through
the same bytes with tighter ends: the end of the Extensions SEQUENCE, and for the
flag and the data of an extension the end of that extension. It is right
(`GetExtOk`) when the extensions are nested as these ends say (`Nested`), which
the integrity check does not look at.
-/

namespace TrustedFirmware.Auth.X509

open Lib Lib.Asn1 List Option X509 Mem Asn1Buf

/-! ### What the integrity check has seen -/

/-- An extension: where it starts, where its SEQUENCE ends, its identifier and the
contents of its OCTET STRING. -/
structure Ext where
  start : Nat
  seqEnd : Nat
  oid : Asn1Buf
  octet : Asn1Buf
  deriving DecidableEq, Repr

/-- The elements of the extension `x`, each of them before `e`. -/
structure ExtensionAt (m : Mem) (e : Nat) (x : Ext) (seq critical : Result) : Prop where
  seq_read : getTag m x.start e 0 tagSequence = some seq
  seq_ok : seq.ret = .ok
  seq_end : seq.p + seq.len = x.seqEnd
  oid_read : getTag m seq.p e 0 tagOid = some ⟨.ok, x.oid.p, x.oid.len⟩
  critical_read : getBool m x.oid.stop e = some critical
  critical_ok : critical.ret = .ok ∨ critical.ret = .unexpectedTag
  octet_read : getTag m critical.p e 0 tagOctetString = some ⟨.ok, x.octet.p, x.octet.len⟩

/-- The extensions from `p` on, one behind the other up to `e`. -/
inductive Extensions (m : Mem) (e : Nat) : Nat → List Ext → Prop
  | nil : Extensions m e e []
  | cons {x : Ext} {xs : List Ext} {seq critical : Result} :
      ExtensionAt m e x seq critical → Extensions m e x.octet.stop xs →
      Extensions m e x.start (x :: xs)

/-- The extensions of the certificate: they start with the contents of the
Extensions SEQUENCE, and end with the TBSCertificate. -/
def CertExtensions (m : Mem) (t : Temp) (xs : List Ext) : Prop :=
  ∃ seq, getTag m t.v3Ext.p t.tbs.stop 0 tagSequence = some seq ∧ seq.ret = .ok ∧
    seq.p + seq.len = t.v3Ext.stop ∧ Extensions m t.tbs.stop seq.p xs

variable {α β : Type} {m : Mem} {p e : Nat} {tag : UInt8}

theorem Parse.bind_ok {x : Parse α} {f : α → Parse β} {b : β}
    (h : (x >>= f).run = some (.ok b)) : ∃ a, x.run = some (.ok a) ∧ (f a).run = some (.ok b) := by
  obtain ⟨r, hx, h⟩ := bind_eq_some_iff.mp h
  cases r with
  | error => cases h
  | ok a => exact ⟨a, hx, h⟩

theorem Parse.pure_ok {a b : α} (h : (pure a : Parse α).run = some (.ok b)) : a = b :=
  Except.ok.inj (some.inj h)

theorem Parse.guard_ok {c : Prop} [Decidable c] {fault : ImgParserErr} {f : Parse β} {b : β}
    (h : (if c then throw fault else f : Parse β).run = some (.ok b)) :
    ¬ c ∧ f.run = some (.ok b) := by
  split_ifs at h with hc
  · cases h
  · exact ⟨hc, h⟩

theorem element_ok {q : Nat × Nat} (h : (element m p e tag).run = some (.ok q)) :
    getTag m p e 0 tag = some ⟨.ok, q.1, q.2⟩ := by
  obtain ⟨r, hr, h⟩ := map_eq_some_iff.mp h
  split_ifs at h with hok
  cases h
  rw [hr, ← hok]

theorem optionalBool_ok {q : Nat} (h : (optionalBool m p e).run = some (.ok q)) :
    ∃ r, getBool m p e = some r ∧ (r.ret = .ok ∨ r.ret = .unexpectedTag) ∧ r.p = q := by
  obtain ⟨r, hr, h⟩ := map_eq_some_iff.mp h
  split_ifs at h with hok
  cases h
  exact ⟨r, hr, hok, rfl⟩

theorem checkExtension_ok {q : Nat} (h : (checkExtension m p e).run = some (.ok q)) :
    ∃ x seq critical, ExtensionAt m e x seq critical ∧ x.start = p ∧ x.octet.stop = q := by
  obtain ⟨⟨sp, sl⟩, hseq, h⟩ := Parse.bind_ok h
  obtain ⟨⟨op, ol⟩, hoid, h⟩ := Parse.bind_ok h
  obtain ⟨cp, hcrit, h⟩ := Parse.bind_ok h
  obtain ⟨⟨dp, dl⟩, hoct, h⟩ := Parse.bind_ok h
  have hstop : dp + dl = q := Parse.pure_ok h
  obtain ⟨critical, hcri, hret, rfl⟩ := optionalBool_ok hcrit
  exact ⟨⟨p, sp + sl, ⟨op, ol⟩, ⟨dp, dl⟩⟩, ⟨.ok, sp, sl⟩, critical,
    ⟨element_ok hseq, rfl, rfl, element_ok hoid, hcri, hret, element_ok hoct⟩, rfl, hstop⟩

theorem checkExtensions_ok {fuel p : Nat} (h : (checkExtensions m e fuel p).run = some (.ok e)) :
    ∃ xs, Extensions m e p xs := by
  induction fuel generalizing p with
  | zero =>
    rw [checkExtensions] at h
    split_ifs at h with hlt
    · cases h
    · cases h
      exact ⟨[], .nil⟩
  | succ fuel ih =>
    rw [checkExtensions] at h
    split_ifs at h with hlt
    · obtain ⟨q, hq, h⟩ := Parse.bind_ok h
      obtain ⟨x, seq, critical, hx, rfl, rfl⟩ := checkExtension_ok hq
      obtain ⟨xs, hxs⟩ := ih h
      exact ⟨x :: xs, .cons hx hxs⟩
    · cases h
      exact ⟨[], .nil⟩

/-- A certificate that has been accepted has a list of extensions, inside the image. -/
theorem certParse_extensions {m : Mem} {imgLen : Nat} {t : Temp}
    (h : (certParse m imgLen).run = some (.ok t)) :
    t.tbs.stop ≤ imgLen ∧ ∃ xs, CertExtensions m t xs := by
  obtain ⟨⟨p, len⟩, -, h⟩ := Parse.bind_ok h
  obtain ⟨-, h⟩ := Parse.guard_ok h
  obtain ⟨⟨q, tbsLen⟩, htbs, h⟩ := Parse.bind_ok h
  obtain ⟨⟨sigAlg1, pk, next⟩, -, h⟩ := Parse.bind_ok h
  obtain ⟨v3Ext, hv3, h⟩ := Parse.bind_ok h
  obtain ⟨signature, -, h⟩ := Parse.bind_ok h
  cases h
  obtain ⟨hlt, hle, -⟩ := getTag_ok (element_ok htbs) rfl
  have hstop : (⟨p, q + tbsLen - p⟩ : Asn1Buf).stop = q + tbsLen := by
    simp only [stop] at hlt ⊢
    omega
  obtain ⟨⟨v, vlen⟩, -, hv3⟩ := Parse.bind_ok hv3
  obtain ⟨⟨c, n⟩, hseq, hv3⟩ := Parse.bind_ok hv3
  obtain ⟨stop, hexts, hv3⟩ := Parse.bind_ok hv3
  obtain ⟨hstop', hv3⟩ := Parse.guard_ok hv3
  cases hv3
  obtain rfl : stop = q + tbsLen := not_not.mp hstop'
  obtain ⟨xs, hxs⟩ := checkExtensions_ok hexts
  have hseq := element_ok hseq
  obtain ⟨hlt', -, -⟩ := getTag_ok hseq rfl
  refine ⟨by rw [hstop]; exact hle, xs, ⟨.ok, c, n⟩, ?_, rfl, ?_, ?_⟩
  · rw [hstop]
    exact hseq
  · simp only [stop] at hlt' ⊢
    omega
  · rw [hstop]
    exact hxs

/-! ### What `get_ext` reads -/

/-- The identifier of an extension as a string, `none` where it is too long. -/
def Ext.oidStr (lib : OidLib) (m : Mem) (x : Ext) : Option Bytes :=
  (m.bytes x.oid.p x.oid.len).bind lib.numericString

/-- The extensions before `stop` end inside their own SEQUENCE, and that one before
`stop`. Behind an identifier that is too long nothing is asked, since `get_ext` gives up
there. -/
def Nested (lib : OidLib) (m : Mem) (stop : Nat) : List Ext → Prop
  | [] => True
  | x :: xs => x.start < stop → (x.octet.stop ≤ x.seqEnd ∧ x.seqEnd ≤ stop) ∧
      (x.oidStr lib m ≠ none → Nested lib m stop xs)

instance decidableNested (lib : OidLib) (m : Mem) (stop : Nat) :
    ∀ xs, Decidable (Nested lib m stop xs)
  | [] => isTrue trivial
  | x :: xs =>
    have := decidableNested lib m stop xs
    inferInstanceAs (Decidable (x.start < stop → _ ∧ (x.oidStr lib m ≠ none → _)))

/-- What `get_ext` should do: it ends, having read nothing outside the Extensions
SEQUENCE; every reader on the way has found its element, the optional flag apart; and a
parameter that it returns is the contents of the first extension with the
identifier. -/
def GetExtOk (lib : OidLib) (m : Mem) (v3Ext : Asn1Buf) (xs : List Ext) (oid : Bytes) : Prop :=
  ∃ r, getExt lib m v3Ext oid = some r ∧
    getExt lib (m.restrict v3Ext.p v3Ext.stop) v3Ext oid = some r ∧
    (∀ c ∈ r.calls, c.ret = .ok ∨ c.optional = true) ∧
    ∀ p len, r.ret = .ok (p, len) → ∃ pre x post, xs = pre ++ x :: post ∧
      x.oidStr lib m = some oid ∧ (∀ y ∈ pre, y.oidStr lib m ≠ some oid) ∧ x.octet = ⟨p, len⟩

/-- Two memories have the same bytes in `[lo, hi)`. -/
def Agree (m' m : Mem) (lo hi : Nat) : Prop := ∀ a, lo ≤ a → a < hi → m' a = m a

theorem Agree.mono {m' m : Mem} {lo hi lo' hi' : Nat} (h : Agree m' m lo hi) (hlo : lo ≤ lo')
    (hhi : hi' ≤ hi) : Agree m' m lo' hi' :=
  fun a ha ha' => h a (by omega) (by omega)

variable {stop lo : Nat} {x : Ext} {xs : List Ext} {seq critical : Result}

theorem ExtensionAt.order (h : ExtensionAt m e x seq critical) :
    x.start < seq.p ∧ seq.p < x.oid.stop ∧ x.oid.stop ≤ critical.p ∧ critical.p < x.octet.p := by
  obtain ⟨hseq, -, -⟩ := getTag_ok h.seq_read h.seq_ok
  obtain ⟨hoid, -, -⟩ := getTag_ok h.oid_read rfl
  obtain ⟨hcrit, -⟩ := getBool_optional h.critical_read h.critical_ok
  obtain ⟨hoct, -, -⟩ := getTag_ok h.octet_read rfl
  simp only [stop] at *
  omega

/-- A nested extension is read by `get_ext` as the integrity check has read it, from the
bytes before `stop` only. -/
theorem ExtensionAt.nextExtension (h : ExtensionAt m e x seq critical)
    (hdata : x.octet.stop ≤ x.seqEnd) (hseq : x.seqEnd ≤ stop) (hlo : lo ≤ x.start)
    {m' : Mem} (hm' : Agree m' m lo stop) (len : Nat) :
    X509.nextExtension m' stop x.start len = some ⟨x.oid, x.octet.p, x.octet.len,
      [⟨false, .ok⟩, ⟨false, .ok⟩, ⟨true, critical.ret⟩, ⟨false, .ok⟩]⟩ := by
  obtain ⟨h1, h2, h3, h4⟩ := h.order
  have hoct : x.octet.p ≤ x.octet.stop := Nat.le_add_right _ _
  have hend := h.seq_end
  have hread_seq : getTag m' x.start stop len tagSequence = some seq := by
    rw [getTag_congr (hm'.mono hlo le_rfl)]
    exact (getTag_ok h.seq_read h.seq_ok).2.2 stop len (by omega)
  have hread_oid : getTag m' seq.p stop 0 tagOid = some ⟨.ok, x.oid.p, x.oid.len⟩ := by
    rw [getTag_congr (hm'.mono (by omega) le_rfl)]
    exact (getTag_ok h.oid_read rfl).2.2 stop 0 (by simp only [Asn1Buf.stop] at *; omega)
  have hread_byte : m' seq.p = some tagOid := by
    rw [hm' seq.p (by omega) (by omega)]
    exact (getTag_ok_tag h.oid_read rfl).2.1
  have hread_critical : getBool m' x.oid.stop (seq.p + seq.len) = some critical := by
    rw [getBool_congr (hm'.mono (by omega) (by omega))]
    exact (getBool_optional h.critical_read h.critical_ok).2 _ (by omega) (by omega)
  have hread_octet : getTag m' critical.p (seq.p + seq.len) seq.len tagOctetString =
      some ⟨.ok, x.octet.p, x.octet.len⟩ := by
    rw [getTag_congr (hm'.mono (by omega) (by omega))]
    exact (getTag_ok h.octet_read rfl).2.2 _ _ (by simp only [Asn1Buf.stop] at *; omega)
  unfold X509.nextExtension
  simp only [hread_seq, hread_byte, hread_oid, bind_eq_bind, bind_some]
  simp only [Asn1Buf.stop] at hread_critical
  simp [hread_critical, hread_octet, h.seq_ok]

theorem getExtLoop_stop (lib : OidLib) (oid : Bytes) (h : stop ≤ p) (fuel len : Nat)
    (calls : List ReaderCall) :
    getExtLoop lib m oid stop fuel p len calls = some ⟨.error .notFound, calls⟩ := by
  unfold getExtLoop
  exact if_neg (not_lt.mpr h)

/-- A round that has found an extension. -/
theorem getExtLoop_next {lib : OidLib} {oid extnOid : Bytes} {len fuel : Nat}
    {calls : List ReaderCall} {y : Extn} (hlt : p < stop)
    (hnext : X509.nextExtension m stop p len = some y)
    (hoid : m.bytes y.oid.p y.oid.len = some extnOid) :
    getExtLoop lib m oid stop (fuel + 1) p len calls =
      (lib.numericString extnOid).elim (some ⟨.error .err, calls ++ y.calls⟩) fun oidStr =>
        if oid = oidStr then some ⟨.ok (y.p, y.len), calls ++ y.calls⟩
        else getExtLoop lib m oid stop fuel (y.p + y.len) y.len (calls ++ y.calls) := by
  rw [getExtLoop, if_pos hlt]
  simp only [hnext, hoid, bind_eq_bind, bind_some]
  cases lib.numericString extnOid <;> rfl

/-- The loop of `get_ext` over nested extensions, in every memory with the bytes of the
Extensions SEQUENCE. -/
theorem Extensions.getExtLoop (lib : OidLib) (oid : Bytes) (h : Extensions m e p xs)
    (hmem : ∀ a, a < stop → ∃ b, m a = some b) (hstop : stop ≤ e) :
    Nested lib m stop xs → lo ≤ p → p ≤ stop → ∀ fuel len calls, stop - p ≤ fuel →
    (∀ c ∈ calls, c.ret = .ok ∨ c.optional = true) →
    ∃ r, (∀ m', Agree m' m lo stop → getExtLoop lib m' oid stop fuel p len calls = some r) ∧
      (∀ c ∈ r.calls, c.ret = .ok ∨ c.optional = true) ∧
      ∀ q n, r.ret = .ok (q, n) → ∃ pre x post, xs = pre ++ x :: post ∧
        x.oidStr lib m = some oid ∧ (∀ y ∈ pre, y.oidStr lib m ≠ some oid) ∧ x.octet = ⟨q, n⟩ := by
  induction h with
  | nil =>
    intro _ _ hle fuel len calls _ hcal
    refine ⟨⟨.error .notFound, calls⟩, fun m' _ => ?_, hcal, fun q n hret => by cases hret⟩
    exact getExtLoop_stop lib oid hstop fuel len calls
  | @cons x xs seq critical hx _ ih =>
    intro hnest hlo hle fuel len calls hfuel hcal
    by_cases hge : stop ≤ x.start
    · refine ⟨⟨.error .notFound, calls⟩, fun m' _ => ?_, hcal, fun q n hret => by cases hret⟩
      exact getExtLoop_stop lib oid hge fuel len calls
    have hlt : x.start < stop := by omega
    obtain ⟨⟨hdata, hseq⟩, hrest⟩ := hnest hlt
    obtain ⟨h1, h2, h3, h4⟩ := hx.order
    have hoct : x.octet.p ≤ x.octet.stop := Nat.le_add_right _ _
    obtain ⟨extnOid, hoid⟩ : ∃ bs, m.bytes x.oid.p x.oid.len = some bs :=
      exists_bytes fun a _ ha => hmem a (by simp only [Asn1Buf.stop] at *; omega)
    have hoidStr : x.oidStr lib m = lib.numericString extnOid := by
      rw [Ext.oidStr, hoid, bind_some]
    have hoidP : lo ≤ x.oid.p := by
      have := (getTag_ok hx.oid_read rfl).1
      simp only at this
      omega
    have hoid' : ∀ m', Agree m' m lo stop → m'.bytes x.oid.p x.oid.len = some extnOid :=
      fun m' hm' => (bytes_congr
        (hm'.mono hoidP (by simp only [Asn1Buf.stop] at *; omega))).trans hoid
    have hcalls' : ∀ c ∈ calls ++ [⟨false, .ok⟩, ⟨false, .ok⟩, ⟨true, critical.ret⟩,
        ⟨false, .ok⟩], c.ret = .ok ∨ c.optional = true :=
      forall_mem_append.mpr ⟨hcal, by simp⟩
    obtain ⟨fuel, rfl⟩ : ∃ k, fuel = k + 1 := ⟨fuel - 1, by omega⟩
    have hnext := fun (m' : Mem) (hm' : Agree m' m lo stop) =>
      hx.nextExtension hdata hseq hlo hm' len
    cases hstr : lib.numericString extnOid with
    | none =>
      refine ⟨⟨.error .err, _⟩, fun m' hm' => ?_, hcalls', fun q n hret => by cases hret⟩
      rw [getExtLoop_next hlt (hnext m' hm') (hoid' m' hm'), hstr]
      rfl
    | some oidStr =>
      by_cases heq : oid = oidStr
      · refine ⟨⟨.ok (x.octet.p, x.octet.len), _⟩, fun m' hm' => ?_, hcalls',
          fun q n hret => ?_⟩
        · rw [getExtLoop_next hlt (hnext m' hm') (hoid' m' hm'), hstr]
          exact if_pos heq
        · cases hret
          exact ⟨[], x, xs, rfl, by rw [hoidStr, hstr, heq], by simp, rfl⟩
      · obtain ⟨r, hr, hok, hfd⟩ := ih (hrest (by rw [hoidStr, hstr]; simp))
          (by omega) (by omega) fuel x.octet.len _ (by omega) hcalls'
        refine ⟨r, fun m' hm' => ?_, hok, fun q n hret => ?_⟩
        · rw [getExtLoop_next hlt (hnext m' hm') (hoid' m' hm'), hstr]
          exact (if_neg heq).trans (hr m' hm')
        · obtain ⟨pre, y, post, rfl, hy, hpre, hyo⟩ := hfd q n hret
          refine ⟨x :: pre, y, post, rfl, hy, forall_mem_cons.mpr ⟨?_, hpre⟩, hyo⟩
          rw [hoidStr, hstr]
          exact fun hsome => heq (some.inj hsome).symm

/-- An extension in which every reader of `get_ext` finds its element is nested, and read as
the integrity check has read it. -/
theorem ExtensionAt.nested (h : ExtensionAt m e x seq critical) (hstop : stop ≤ e) {len : Nat}
    {y : Extn} (hy : X509.nextExtension m stop x.start len = some y)
    (hcal : ∀ c ∈ y.calls, c.ret = .ok ∨ c.optional = true) :
    (x.octet.stop ≤ x.seqEnd ∧ x.seqEnd ≤ stop) ∧ y.oid = x.oid ∧
      y.p = x.octet.p ∧ y.len = x.octet.len := by
  obtain ⟨seq', hseq, hy⟩ := bind_eq_some_iff.mp hy
  obtain ⟨b, -, hy⟩ := bind_eq_some_iff.mp hy
  obtain ⟨oid, hoid, hy⟩ := bind_eq_some_iff.mp hy
  obtain ⟨critical', hcrit, hy⟩ := bind_eq_some_iff.mp hy
  obtain ⟨octet, hoct, hy⟩ := bind_eq_some_iff.mp hy
  cases hy
  simp only [mem_cons, not_mem_nil, or_false, forall_eq_or_imp, forall_eq,
    Bool.false_eq_true, or_true, true_and] at hcal
  obtain ⟨hseq_ok, hoid_ok, hoctet_ok⟩ := hcal
  -- the SEQUENCE and the identifier are the same with either end
  obtain ⟨-, hseq_le, hseq_all⟩ := getTag_ok hseq hseq_ok
  have hsame := hseq_all e 0 (by omega)
  rw [h.seq_read] at hsame
  cases hsame
  obtain ⟨-, hoid_le, hoid_all⟩ := getTag_ok hoid hoid_ok
  have hsame := hoid_all e 0 (by omega)
  rw [h.oid_read] at hsame
  cases hsame
  -- a flag that is cut off leaves the pointer where no OCTET STRING starts
  obtain ⟨hoctet_lt, hoctet_le, hoctet_all⟩ := getTag_ok hoct hoctet_ok
  have hbyte := (getTag_ok_tag hoct hoctet_ok).2.1
  rcases getBool_cut h.critical_read h.critical_ok hcrit with rfl | hend | ⟨b', hb', hge⟩
  · have hsame := hoctet_all e 0 (by omega)
    rw [h.octet_read] at hsame
    cases hsame
    refine ⟨⟨?_, ?_⟩, rfl, rfl, rfl⟩
    · rw [← h.seq_end]
      exact hoctet_le
    · rw [← h.seq_end]
      exact hseq_le
  · omega
  · rw [hbyte] at hb'
    cases hb'
    exact absurd hge (by decide)

variable {lib : OidLib} {oid : Bytes} {r : GetExt}

/-- The search ends at an extension, or goes on behind it. -/
theorem getExtLoop_eq_some {fuel p len : Nat} {calls : List ReaderCall} (hlt : p < stop)
    (h : getExtLoop lib m oid stop fuel p len calls = some r) :
    ∃ y extnOid, X509.nextExtension m stop p len = some y ∧
      m.bytes y.oid.p y.oid.len = some extnOid ∧
      ((r.calls = calls ++ y.calls ∧
          (lib.numericString extnOid = none ∨ lib.numericString extnOid = some oid)) ∨
        ∃ fuel' < fuel,
          getExtLoop lib m oid stop fuel' (y.p + y.len) y.len (calls ++ y.calls) = some r) := by
  cases fuel with
  | zero =>
    rw [getExtLoop, if_pos hlt] at h
    cases h
  | succ fuel =>
    rw [getExtLoop, if_pos hlt] at h
    obtain ⟨y, hy, h⟩ := bind_eq_some_iff.mp h
    obtain ⟨extnOid, hby, h⟩ := bind_eq_some_iff.mp h
    refine ⟨y, extnOid, hy, hby, ?_⟩
    cases hstr : lib.numericString extnOid with
    | none =>
      simp only [hstr] at h
      cases h
      exact .inl ⟨rfl, .inl rfl⟩
    | some =>
      simp only [hstr] at h
      split_ifs at h with heq
      · cases h
        exact .inl ⟨rfl, .inr (congrArg some heq.symm)⟩
      · exact .inr ⟨fuel, fuel.lt_succ_self, h⟩

theorem mem_calls_of_getExtLoop {fuel p len : Nat} {calls : List ReaderCall}
    (h : getExtLoop lib m oid stop fuel p len calls = some r) (c) (hc : c ∈ calls) :
    c ∈ r.calls := by
  induction fuel using Nat.strong_induction_on generalizing p len calls with
  | _ fuel ih =>
    by_cases hlt : p < stop
    · obtain ⟨y, extnOid, -, -, ⟨hr, -⟩ | ⟨fuel', hfuel, h⟩⟩ := getExtLoop_eq_some hlt h
      · rw [hr]
        exact mem_append_left _ hc
      · exact ih fuel' hfuel h (mem_append_left _ hc)
    · rw [getExtLoop_stop lib oid (not_lt.mp hlt)] at h
      cases h
      exact hc

/-- Extensions through which `get_ext` comes with every reader finding its element, looking
for an identifier that none of them has, are nested. -/
theorem Extensions.nested (h : Extensions m e p xs) (hstop : stop ≤ e)
    (hoid : ∀ x ∈ xs, x.oidStr lib m ≠ some oid)
    (hcal : ∀ c ∈ r.calls, c.ret = .ok ∨ c.optional = true) :
    ∀ {fuel len : Nat} {calls : List ReaderCall},
      X509.getExtLoop lib m oid stop fuel p len calls = some r → Nested lib m stop xs := by
  induction h with
  | nil => exact fun _ => trivial
  | @cons x xs seq critical hx _ ih =>
    intro fuel len calls hloop hlt
    obtain ⟨y, extnOid, hy, hby, hend⟩ := getExtLoop_eq_some hlt hloop
    have hkept : ∀ c ∈ y.calls, c ∈ r.calls := by
      intro c hc
      rcases hend with ⟨hr, -⟩ | ⟨fuel', -, hloop⟩
      · rw [hr]
        exact mem_append_right _ hc
      · exact mem_calls_of_getExtLoop hloop c (mem_append_right _ hc)
    obtain ⟨hnest, hyoid, hyp, hylen⟩ :=
      hx.nested hstop hy fun c hc => hcal c (hkept c hc)
    refine ⟨hnest, fun hsome => ?_⟩
    have hoidStr : x.oidStr lib m = lib.numericString extnOid := by
      rw [Ext.oidStr, ← hyoid, hby, bind_some]
    have hne := hoid x mem_cons_self
    rw [hoidStr] at hsome hne
    rcases hend with ⟨-, hnone | hfound⟩ | ⟨fuel', -, hloop⟩
    · exact absurd hnone hsome
    · exact absurd hfound hne
    · rw [hyp, hylen] at hloop
      exact ih (fun z hz => hoid z (mem_cons_of_mem x hz)) hloop

/-! ### The extensions of a certificate -/

/-- **`get_ext` on an accepted certificate.** It is right for every identifier exactly if the
extensions are nested, which `cert_parse` does not check. -/
theorem get_ext_ok_iff_nested (lib : OidLib) (img : Bytes) (t : Temp)
    (h : (certParse (ofList img) img.length).run = some (.ok t)) :
    ∃ xs, CertExtensions (ofList img) t xs ∧
      ((∀ oid, GetExtOk lib (ofList img) t.v3Ext xs oid) ↔
        Nested lib (ofList img) t.v3Ext.stop xs) := by
  obtain ⟨htbs, xs, hxs⟩ := certParse_extensions h
  refine ⟨xs, hxs, ?_⟩
  obtain ⟨seq, hseq, hseq_ok, hseq_end, hexts⟩ := hxs
  obtain ⟨hlt, hle, hall⟩ := getTag_ok hseq hseq_ok
  have hread := hall t.v3Ext.stop 0 (le_of_eq hseq_end)
  constructor
  · intro hok
    -- an identifier that no extension has
    obtain ⟨oid, hoid⟩ := Infinite.exists_notMem_finset
      (xs.filterMap (Ext.oidStr lib (ofList img))).toFinset
    obtain ⟨r, hr, -, hcal, -⟩ := hok oid
    unfold getExt at hr
    rw [hread] at hr
    refine hexts.nested (by omega) (fun x hx hsome => hoid ?_) hcal hr
    exact mem_toFinset.mpr (mem_filterMap.mpr ⟨x, hx, hsome⟩)
  · intro hnest oid
    have hmem : ∀ a, a < t.v3Ext.stop → ∃ b, ofList img a = some b := by
      intro a ha
      have hlen : a < img.length := by omega
      exact ⟨img[a], getElem?_eq_getElem hlen⟩
    obtain ⟨r, hr, hcal, hfd⟩ := hexts.getExtLoop lib oid hmem (by omega) hnest
      hlt.le (by omega) t.v3Ext.len seq.len [⟨false, seq.ret⟩]
      (by simp only [stop] at *; omega) (by simp [hseq_ok])
    have hagr : Agree ((ofList img).restrict t.v3Ext.p t.v3Ext.stop) (ofList img)
        t.v3Ext.p t.v3Ext.stop := fun a ha ha' => restrict_of_mem ha ha'
    have hget : ∀ m', Agree m' (ofList img) t.v3Ext.p t.v3Ext.stop →
        getExt lib m' t.v3Ext oid = some r := by
      intro m' hm'
      have hread' : getTag m' t.v3Ext.p t.v3Ext.stop 0 tagSequence = some seq :=
        (getTag_congr hm' 0 tagSequence).trans hread
      unfold getExt
      rw [hread']
      exact hr m' hm'
    exact ⟨r, hget _ fun a _ _ => rfl, hget _ hagr, hcal, hfd⟩

/-- Identifiers that are their own strings, of at most 8 bytes. -/
def plainOids : OidLib where
  numericString oid := if oid.length ≤ 8 then some oid else none
  cookieString cookie := [cookie.toUInt8]

/-- A certificate with short fields and the given extensions. -/
def certWith (exts : Bytes) : Bytes :=
  let len := UInt8.ofNat exts.length
  [0x30, len + 24, 0x30, len + 18, 0xA0, 0, 0x02, 0, 0x30, 0, 0x30, 0, 0x30, 0, 0x30, 0, 0x30, 0,
    0xA3, len + 2, 0x30, len] ++ exts ++ [0x30, 0, 0x03, 0]

/-- One extension, whose identifier is `07` and whose data is `01 02 03`, with the length
`seqLen` in its header. -/
def oneExtension (seqLen : UInt8) : Bytes := [0x30, seqLen, 0x06, 1, 7, 0x04, 3, 1, 2, 3]

/-- The parts of a certificate with this extension. -/
def oneTemp : Temp := ⟨⟨2, 30⟩, ⟨20, 12⟩, ⟨16, 2⟩, ⟨8, 2⟩, ⟨34, 2⟩⟩

theorem get_ext_ok_iff_nested_oneExtension :
    (certParse (ofList (certWith (oneExtension 8))) (certWith (oneExtension 8)).length).run =
      some (.ok oneTemp) ∧
    ∃ xs, CertExtensions (ofList (certWith (oneExtension 8))) oneTemp xs ∧
      ((∀ oid, GetExtOk plainOids (ofList (certWith (oneExtension 8))) oneTemp.v3Ext xs oid) ↔
        Nested plainOids (ofList (certWith (oneExtension 8))) oneTemp.v3Ext.stop xs) :=
  have h : (certParse (ofList (certWith (oneExtension 8)))
      (certWith (oneExtension 8)).length).run = some (.ok oneTemp) := by decide +kernel
  ⟨h, get_ext_ok_iff_nested plainOids (certWith (oneExtension 8)) oneTemp h⟩

/-- The header of the extension ends before its data: the certificate is accepted, and
`get_ext` returns the address of the OCTET STRING's tag instead of its contents. -/
theorem short_extension_misread :
    (certParse (ofList (certWith (oneExtension 3))) (certWith (oneExtension 3)).length).run =
      some (.ok oneTemp) ∧
    ∃ r, getExt plainOids (ofList (certWith (oneExtension 3))) oneTemp.v3Ext [7] = some r ∧
      r.ret = .ok (27, 3) ∧ ⟨false, .outOfData⟩ ∈ r.calls ∧
      ∀ xs, ¬ GetExtOk plainOids (ofList (certWith (oneExtension 3))) oneTemp.v3Ext xs [7] := by
  refine ⟨by decide +kernel, ⟨.ok (27, 3), [⟨false, .ok⟩, ⟨false, .ok⟩, ⟨false, .ok⟩,
    ⟨true, .outOfData⟩, ⟨false, .outOfData⟩]⟩, rfl, rfl, by decide, ?_⟩
  rintro xs ⟨r, hr, -, hcal, -⟩
  cases hr
  exact absurd (hcal ⟨false, .outOfData⟩ (by decide)) (by decide)

end TrustedFirmware.Auth.X509
