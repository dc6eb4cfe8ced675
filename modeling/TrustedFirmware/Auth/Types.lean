import TrustedFirmware.Lib.Asn1

/-!
# The data of the authentication framework

`auth_common.h`, `auth_mod.h` and `img_parser_mod.h`: the chain of trust, what an image
parser library answers, and what the crypto library and the platform are asked.

A pointer that a parser returns into an image is the rest of the image from there
on (`Param.ptr`), so code that runs past the parameter's length reads the bytes
that follow in the image, and code that runs past the image is undefined. A failed
assertion, a null pointer that is followed and a read past the image are all `none`;
an error that the code returns is its `int`.
-/

namespace TrustedFirmware.Auth

abbrev Bytes := List UInt8

/-- An image identifier, the index into `cot_desc_ptr`. -/
abbrev ImgId := Nat

/-- The address that a `cookie` holds; 0 is `NULL`. -/
abbrev Cookie := Nat

/-- `img_type_t` -/
inductive ImgType
  | raw
  | plat
  | cert
  deriving DecidableEq, Repr

/-- `auth_param_type_t` -/
inductive AuthParamType
  | none
  | rawData
  | sig
  | sigAlg
  | hash
  | pubKey
  | nvCtr
  deriving DecidableEq, Repr

/-- `auth_param_type_desc_t` -/
structure AuthParamTypeDesc where
  type : AuthParamType
  cookie : Cookie
  deriving DecidableEq, Repr

/-- `enum img_parser_ret_value`, the errors -/
inductive ImgParserErr
  | err
  | format
  | notFound
  deriving DecidableEq, Repr

/-- An `int` that a function returns as an error. -/
abbrev Err := {rc : Int // rc ≠ 0}

/-- `return 1` -/
def Err.one : Err := ⟨1, by decide⟩

/-- The `int` of a parser error. -/
def ImgParserErr.rc : ImgParserErr → Err
  | err => ⟨1, by decide⟩
  | format => ⟨2, by decide⟩
  | notFound => ⟨3, by decide⟩

/-- A pointer into an image and a length. -/
structure Param where
  ptr : Bytes
  len : Nat
  deriving DecidableEq, Repr

/-- The bytes of a parameter. -/
def Param.content (q : Param) : Option Bytes :=
  if q.len ≤ q.ptr.length then some (q.ptr.take q.len) else none

/-- What `get_auth_param` answers about the image that has just passed the
integrity check. -/
abbrev View := AuthParamTypeDesc → Option (Except Err Param)

/-- `img_parser_lib_desc_t`. The integrity check sets the static variables that
`get_auth_param` answers from, so it returns these answers. -/
structure ImgParserLib where
  checkIntegrity : Bytes → Option (Except Err View)

/-- `crypto_lib_desc_t`; a result is 0 or an error. -/
structure CryptoLib where
  verifySignature : (data sig sigAlg pk : Bytes) → Int
  verifyHash : (data digestInfo : Bytes) → Int

/-- What `plat_get_rotpk_info` returns on success: the key or its hash, and the
flags `ROTPK_IS_HASH` and `ROTPK_NOT_DEPLOYED`. -/
structure RotpkInfo where
  key : Bytes
  isHash : Bool
  notDeployed : Bool
  deriving DecidableEq, Repr

/-- The libraries and the root key that the authentication module is built with. -/
structure Platform where
  parserLib : ImgType → Option ImgParserLib
  crypto : CryptoLib
  getRotpkInfo : Cookie → Except Err RotpkInfo

/-- `auth_method_desc_t` -/
inductive AuthMethod
  | none
  | hash (data hash : AuthParamTypeDesc)
  | sig (pk sig alg data : AuthParamTypeDesc)
  | nvCtr (certNvCtr platNvCtr : AuthParamTypeDesc)
  deriving DecidableEq, Repr

/-- `auth_param_desc_t` with a type: the parameter that is kept, and the buffer
(`data.ptr`) and buffer length (`data.len`) it is kept in. -/
structure AuthParamDesc where
  typeDesc : AuthParamTypeDesc
  buf : Nat
  len : Nat
  deriving DecidableEq, Repr

/-- `auth_img_desc_t`. An entry of `authenticated_data` without a type is `none`. -/
structure AuthImgDesc where
  imgType : ImgType
  parent : Option ImgId
  imgAuthMethods : Option (List AuthMethod)
  authenticatedData : Option (List (Option AuthParamDesc))
  deriving DecidableEq, Repr

/-- The chain of trust, `cot_desc_ptr`. -/
abbrev Cot := ImgId → Option AuthImgDesc

end TrustedFirmware.Auth
