import TrustedFirmware.Auth.Types

/-!
# The X.509 image parser (`mbedtls_x509_parser.c`)

`certParse` walks through the certificate once, checks its structure and remembers where
the parts are; `getExt` walks through the extensions again for every parameter that is
asked for.

`get_ext` ignores what the ASN.1 readers return ("no need to check for errors since
the image has passed the integrity check"): its model goes on with the pointer and
the length that a failed reader leaves, and keeps a list of what the readers
returned.
-/

namespace TrustedFirmware.Auth.X509

open Lib Lib.Asn1

/-- `mbedtls_asn1_buf`, without the tag -/
structure Asn1Buf where
  p : Nat
  len : Nat
  deriving DecidableEq, Repr

/-- The address behind the last byte. -/
def Asn1Buf.stop (b : Asn1Buf) : Nat := b.p + b.len

/-- The static variables of the parser, which `cert_parse` sets. -/
structure Temp where
  tbs : Asn1Buf
  v3Ext : Asn1Buf
  pk : Asn1Buf
  sigAlg : Asn1Buf
  signature : Asn1Buf
  deriving DecidableEq, Repr

/-- The identifiers: `mbedtls_oid_get_numeric_string` (`none` is
`MBEDTLS_ERR_OID_BUF_TOO_SMALL`) and the strings that the cookies point to. -/
structure OidLib where
  numericString : Bytes → Option Bytes
  cookieString : Cookie → Bytes

/-! ### The integrity check -/

/-- Code that returns a parser error, or is undefined. -/
abbrev Parse := ExceptT ImgParserErr Option

/-- `ret = mbedtls_asn1_get_tag(..); if (ret != 0) return IMG_PARSER_ERR_FORMAT;`
The pointer to the contents and their length. -/
def element (m : Mem) (p e : Nat) (tag : UInt8) : Parse (Nat × Nat) :=
  ExceptT.mk <| (getTag m p e 0 tag).map fun r =>
    if r.ret = .ok then .ok (r.p, r.len) else .error .format

/-- An element that may be missing: the pointer behind it. -/
def optionalElement (m : Mem) (p e : Nat) (tag : UInt8) : Parse Nat :=
  ExceptT.mk <| (getTag m p e 0 tag).map fun r =>
    if r.ret = .ok then .ok (r.p + r.len)
    else if r.ret = .unexpectedTag then .ok r.p
    else .error .format

/-- The optional flag of an extension: the pointer behind it. -/
def optionalBool (m : Mem) (p e : Nat) : Parse Nat :=
  ExceptT.mk <| (getBool m p e).map fun r =>
    if r.ret = .ok ∨ r.ret = .unexpectedTag then .ok r.p else .error .format

/-- An `AlgorithmIdentifier`, with its tag. -/
def algorithmIdentifier (m : Mem) (p e : Nat) : Parse Asn1Buf := do
  let (q, len) ← element m p e tagSequence
  if e - q < 1 then throw .format
  return ⟨p, q + len - p⟩

/-- From the version to the unique identifiers: the first `AlgorithmIdentifier`, the
`SubjectPublicKeyInfo` and the pointer behind the last field. -/
def certFields (m : Mem) (p e : Nat) : Parse (Asn1Buf × Asn1Buf × Nat) := do
  -- Version
  let (p, len) ← element m p e (tagContext 0)
  -- CertificateSerialNumber
  let (p, len) ← element m (p + len) e tagInteger
  -- signature
  let sigAlg1 ← algorithmIdentifier m (p + len) e
  -- issuer, Validity, subject
  let (p, len) ← element m sigAlg1.stop e tagSequence
  let (p, len) ← element m (p + len) e tagSequence
  let (p, len) ← element m (p + len) e tagSequence
  -- SubjectPublicKeyInfo
  let pkP := p + len
  let (p, len) ← element m pkP e tagSequence
  let pk : Asn1Buf := ⟨pkP, p + len - pkP⟩
  -- issuerUniqueID, subjectUniqueID
  let p ← optionalElement m (p + len) e (tagContext 1)
  let p ← optionalElement m p e (tagContext 2)
  return (sigAlg1, pk, p)

/-- One turn of the loop over the extensions: the pointer behind the extension. -/
def checkExtension (m : Mem) (p e : Nat) : Parse Nat := do
  let (p, _) ← element m p e tagSequence
  -- Get extension ID
  let (p, len) ← element m p e tagOid
  -- Get optional critical
  let p ← optionalBool m (p + len) e
  -- Data should be octet string type
  let (p, len) ← element m p e tagOctetString
  return p + len

/-- The loop over the extensions, which ends at the end of the TBSCertificate. Every
turn moves the pointer, so `e - p` turns are enough. -/
def checkExtensions (m : Mem) (e : Nat) : Nat → Nat → Parse Nat
  | fuel, p =>
    if p < e then
      match fuel with
      | 0 => ExceptT.mk none
      | fuel + 1 => do
        let p ← checkExtension m p e
        checkExtensions m e fuel p
    else pure p

/-- The extensions, which have to end with the TBSCertificate. -/
def certV3Ext (m : Mem) (p e : Nat) : Parse Asn1Buf := do
  let (p, _) ← element m p e (tagContext 3)
  let (q, len) ← element m p e tagSequence
  let stop ← checkExtensions m e (e - q) q
  if stop ≠ e then throw .format
  return ⟨p, q + len - p⟩

/-- The bytes at two addresses are the same (`memcmp`). -/
def sameBytes (m : Mem) (a b : Asn1Buf) : Parse Bool :=
  ExceptT.mk do
    let x ← m.bytes a.p a.len
    let y ← m.bytes b.p a.len
    some (.ok (x = y))

/-- The second `AlgorithmIdentifier`, which has to be the same as the first, and the
signature value, with which the certificate ends. -/
def certSignature (m : Mem) (p e : Nat) (sigAlg1 : Asn1Buf) : Parse Asn1Buf := do
  let sigAlg2 ← algorithmIdentifier m p e
  if sigAlg1.len ≠ sigAlg2.len then throw .format
  let same ← sameBytes m sigAlg1 sigAlg2
  if same = false then throw .format
  let (q, len) ← element m sigAlg2.stop e tagBitString
  if q + len ≠ e then throw .format
  return ⟨sigAlg2.stop, q + len - sigAlg2.stop⟩

/-- `cert_parse`, for an image of `imgLen` bytes at address 0 -/
def certParse (m : Mem) (imgLen : Nat) : Parse Temp := do
  -- Certificate
  let (p, len) ← element m 0 imgLen tagSequence
  if imgLen - p < len then throw .format
  let crtEnd := p + len
  -- TBSCertificate
  let (q, len) ← element m p imgLen tagSequence
  let e := q + len
  let (sigAlg1, pk, next) ← certFields m q e
  let v3Ext ← certV3Ext m next e
  let signature ← certSignature m e crtEnd sigAlg1
  return ⟨⟨p, e - p⟩, v3Ext, pk, sigAlg1, signature⟩

/-! ### The parameters -/

/-- What a reader returned, and whether it was the one for the optional flag. -/
structure ReaderCall where
  optional : Bool
  ret : Ret
  deriving DecidableEq, Repr

/-- What one turn of `get_ext` reads: the identifier, and the pointer and the length
after the last reader. -/
structure Extn where
  oid : Asn1Buf
  p : Nat
  len : Nat
  calls : List ReaderCall
  deriving DecidableEq, Repr

/-- One turn of the loop of `get_ext`. `len` is the length variable, which a reader
that fails leaves alone or overwrites. -/
def nextExtension (m : Mem) (e p len : Nat) : Option Extn := do
  let seq ← getTag m p e len tagSequence
  let endExtData := seq.p + seq.len
  -- `extn_oid.tag = *p`
  let _ ← m seq.p
  let oid ← getTag m seq.p e 0 tagOid
  -- the flag and the data are read up to the end of this extension
  let critical ← getBool m (oid.p + oid.len) endExtData
  let octet ← getTag m critical.p endExtData seq.len tagOctetString
  some {
    oid := ⟨oid.p, oid.len⟩
    p := octet.p
    len := octet.len
    calls := [⟨false, seq.ret⟩, ⟨false, oid.ret⟩, ⟨true, critical.ret⟩, ⟨false, octet.ret⟩] }

/-- What `get_ext` returns: an error, or the address and the length of the parameter;
and what the readers returned on the way. -/
structure GetExt where
  ret : Except ImgParserErr (Nat × Nat)
  calls : List ReaderCall

/-- The loop of `get_ext`. A loop that has not ended after `fuel` turns is `none`. -/
def getExtLoop (lib : OidLib) (m : Mem) (oid : Bytes) (e : Nat) :
    (fuel p len : Nat) → List ReaderCall → Option GetExt
  | fuel, p, len, calls =>
    if p < e then
      match fuel with
      | 0 => none
      | fuel + 1 => do
        let x ← nextExtension m e p len
        let extnOid ← m.bytes x.oid.p x.oid.len
        match lib.numericString extnOid with
        | none => some ⟨.error .err, calls ++ x.calls⟩
        | some oidStr =>
          if oid = oidStr then some ⟨.ok (x.p, x.len), calls ++ x.calls⟩
          else getExtLoop lib m oid e fuel (x.p + x.len) x.len (calls ++ x.calls)
    else some ⟨.error .notFound, calls⟩

/-- `get_ext`, with one turn for every byte of the extensions -/
def getExt (lib : OidLib) (m : Mem) (v3Ext : Asn1Buf) (oid : Bytes) : Option GetExt := do
  let seq ← getTag m v3Ext.p v3Ext.stop 0 tagSequence
  getExtLoop lib m oid v3Ext.stop v3Ext.len seq.p seq.len [⟨false, seq.ret⟩]

/-- A part of the image as a parameter. -/
def Asn1Buf.param (img : Bytes) (b : Asn1Buf) : Param := ⟨img.drop b.p, b.len⟩

/-- An extension as a parameter. -/
def extParam (lib : OidLib) (img : Bytes) (t : Temp) (cookie : Cookie) :
    Option (Except Err Param) := do
  let r ← getExt lib (Mem.ofList img) t.v3Ext (lib.cookieString cookie)
  match r.ret with
  | .error e => some (.error e.rc)
  | .ok (p, len) => some (.ok (Asn1Buf.param img ⟨p, len⟩))

/-- `get_auth_param` -/
def getAuthParam (lib : OidLib) (img : Bytes) (t : Temp) : View := fun typeDesc =>
  match typeDesc.type with
  | .rawData => some (.ok (t.tbs.param img))
  | .hash | .nvCtr => extParam lib img t typeDesc.cookie
  | .pubKey =>
    if typeDesc.cookie ≠ 0 then extParam lib img t typeDesc.cookie
    else some (.ok (t.pk.param img))
  | .sigAlg => some (.ok (t.sigAlg.param img))
  | .sig => some (.ok (t.signature.param img))
  | .none => some (.error ImgParserErr.notFound.rc)

/-- `check_integrity`, and the registered parser library -/
def x509Lib (lib : OidLib) : ImgParserLib where
  checkIntegrity img := do
    match ← (certParse (Mem.ofList img) img.length).run with
    | .error e => some (.error e.rc)
    | .ok t => some (.ok (getAuthParam lib img t))

end TrustedFirmware.Auth.X509
