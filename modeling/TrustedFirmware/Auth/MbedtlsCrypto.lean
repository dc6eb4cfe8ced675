import TrustedFirmware.Auth.Types

/-!
# `verify_hash` of `mbedtls_crypto.c`

The digest information is DER, a SEQUENCE of an AlgorithmIdentifier and an OCTET STRING with the
digest. The end of the buffer is the only end that the readers are given; the length of the outer
SEQUENCE is read and not used.

The digests themselves and `verify_signature` belong to mbed TLS and are parameters.
-/

namespace TrustedFirmware.Auth

open Lib Asn1 Option

/-- `mbedtls_md_info_t`: the size of the digests and `mbedtls_md`, which may fail. -/
structure MdInfo where
  size : Nat
  md : Bytes → Option (Vector UInt8 size)

/-- `mbedtls_oid_get_md_alg` followed by `mbedtls_md_info_from_type`. -/
structure MdLib where
  oidGetMdAlg : (oid : Bytes) → Option Nat
  mdInfoFromType : Nat → Option MdInfo

/-- `CRYPTO_ERR_HASH` -/
def cryptoErrHash : Int := 2

/-- The end of `verify_hash`: the OCTET STRING at `p` against the digest of the data. -/
def compareHash (info : MdInfo) (data : Bytes) (m : Mem) (p e : Nat) : Option Int := do
  let hash ← getTag m p e 0 tagOctetString
  if hash.ret ≠ .ok then
    some cryptoErrHash
  else if hash.len ≠ info.size then
    some cryptoErrHash
  else
    match info.md data with
    | none => some cryptoErrHash
    | some dataHash => do
      let bytes ← m.bytes hash.p info.size
      if dataHash.toList = bytes then some 0 else some cryptoErrHash

/-- `verify_hash` -/
def verifyHash (lib : MdLib) (data digestInfo : Bytes) : Option Int := do
  let m := Mem.ofList digestInfo
  let e := digestInfo.length
  let seq ← getTag m 0 e 0 tagSequence
  if seq.ret ≠ .ok then
    some cryptoErrHash
  else
    match ← getAlg m seq.p e with
    | .error _ => some cryptoErrHash
    | .ok alg => do
      let oid ← m.bytes alg.oidP alg.oidLen
      match (lib.oidGetMdAlg oid).bind lib.mdInfoFromType with
      | none => some cryptoErrHash
      | some info => compareHash info data m alg.p e

variable {m : Mem} {e : Nat}

theorem compareHash_isSome (h : ∀ a < e, ∃ b, m a = some b) (info : MdInfo) (data : Bytes)
    (p : Nat) : (compareHash info data m p e).isSome := by
  unfold compareHash
  obtain ⟨hash, hhash⟩ := exists_getTag (p := p) h 0 tagOctetString
  simp only [hhash, bind_eq_bind, bind_some]
  split_ifs with hret hsize
  · rfl
  · rfl
  cases info.md data with
  | none => rfl
  | some =>
    obtain ⟨-, hstop, -⟩ := getTag_ok hhash (not_not.mp hret)
    obtain ⟨bytes, hby⟩ : ∃ bs, m.bytes hash.p info.size = some bs :=
      Mem.exists_bytes fun a _ ha => h a (by omega)
    simp only [hby, bind_some]
    split_ifs with heq
    · rfl
    · rfl

theorem verifyHash_isSome (lib : MdLib) (data digestInfo : Bytes) :
    (verifyHash lib data digestInfo).isSome := by
  have hmem : ∀ a < digestInfo.length, ∃ b, Mem.ofList digestInfo a = some b :=
    fun a ha => ⟨digestInfo[a], List.getElem?_eq_getElem ha⟩
  unfold verifyHash
  obtain ⟨seq, hseq⟩ := exists_getTag (p := 0) hmem 0 tagSequence
  simp only [hseq, bind_eq_bind, bind_some]
  split_ifs
  · rfl
  obtain ⟨r, hr, hin⟩ := exists_getAlg (p := seq.p) hmem
  simp only [hr, bind_some]
  cases r with
  | error => rfl
  | ok alg =>
    have hoid := hin alg rfl
    obtain ⟨oid, hoid⟩ : ∃ bs, (Mem.ofList digestInfo).bytes alg.oidP alg.oidLen = some bs :=
      Mem.exists_bytes fun a _ ha => hmem a (by omega)
    simp only [hoid, bind_some]
    cases (lib.oidGetMdAlg oid).bind lib.mdInfoFromType with
    | none => rfl
    | some info => exact compareHash_isSome hmem info data alg.p

theorem verifyHash_zero (lib : MdLib) (data : Bytes) (len : Nat) :
    verifyHash lib data (List.replicate len 0) = some cryptoErrHash := by
  have hseq : ∃ ret, getTag (Mem.ofList (List.replicate len 0)) 0
      (List.replicate len (0 : UInt8)).length 0 tagSequence = some ⟨ret, 0, 0⟩ ∧ ret ≠ .ok := by
    cases len with
    | zero => exact ⟨.outOfData, rfl, by decide⟩
    | succ => exact ⟨.unexpectedTag, rfl, by decide⟩
  obtain ⟨ret, hseq, hret⟩ := hseq
  unfold verifyHash
  simp only [hseq, bind_eq_bind, bind_some]
  rw [if_pos hret]

/-- The library that `REGISTER_CRYPTO_LIB` registers. -/
def mbedtlsLib (lib : MdLib) (verifySignature : (data sig sigAlg pk : Bytes) → Int) :
    CryptoLib where
  verifySignature := verifySignature
  verifyHash data digestInfo :=
    (verifyHash lib data digestInfo).get (verifyHash_isSome lib data digestInfo)

theorem mbedtlsLib_verifyHash {lib : MdLib}
    {verifySignature : (data sig sigAlg pk : Bytes) → Int} {data digestInfo : Bytes} {rc : Int}
    (h : (mbedtlsLib lib verifySignature).verifyHash data digestInfo = rc) :
    verifyHash lib data digestInfo = some rc := by
  rw [← h, mbedtlsLib, some_get]

end TrustedFirmware.Auth
