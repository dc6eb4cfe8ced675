import TrustedFirmware.Lib.Bytes
import Mathlib.Data.Fintype.Basic

/-!
# The Firmware Image Package of `firmware_image_package.h`

A header, the entries of the table of contents (ToC) with a null UUID for the last one, and the
payloads. The fields are little-endian.
-/

namespace TrustedFirmware.Fip

open Lib List
open BitVec (ofNat)

/-- `uuid_t`. -/
abbrev Uuid := Fin 16 → UInt8

def uuidNull : Uuid := fun _ => 0

/-- `fip_toc_header_t`. -/
structure TocHeader where
  name : BitVec 32
  serialNumber : BitVec 32
  flags : BitVec 64
  deriving DecidableEq

/-- `fip_toc_entry_t`. -/
structure TocEntry where
  uuid : Uuid
  offsetAddress : BitVec 64
  size : BitVec 64
  flags : BitVec 64
  deriving DecidableEq

/-- `TOC_HEADER_NAME`. -/
def tocHeaderName : BitVec 32 := 0xAA640001

/-- `TOC_HEADER_SERIAL_NUMBER`. -/
def tocHeaderSerialNumber : BitVec 32 := 0x12345678

/-- `sizeof(fip_toc_header_t)`. -/
def sizeofTocHeader : Nat := 16

/-- `sizeof(fip_toc_entry_t)`. -/
def sizeofTocEntry : Nat := 40

/-! ### Bytes -/

/-- The field of `n` bytes from `start` on. -/
def field (bytes : List UInt8) (start n : Nat) : Nat := leValue ((bytes.drop start).take n)

def TocHeader.toBytes (h : TocHeader) : List UInt8 :=
  leBytes 4 h.name.toNat ++ (leBytes 4 h.serialNumber.toNat ++ leBytes 8 h.flags.toNat)

def TocHeader.ofBytes (bytes : List UInt8) : TocHeader where
  name := ofNat 32 (field bytes 0 4)
  serialNumber := ofNat 32 (field bytes 4 4)
  flags := ofNat 64 (field bytes 8 8)

def TocEntry.toBytes (e : TocEntry) : List UInt8 :=
  ofFn e.uuid ++ (leBytes 8 e.offsetAddress.toNat ++
    (leBytes 8 e.size.toNat ++ leBytes 8 e.flags.toNat))

def TocEntry.ofBytes (bytes : List UInt8) : TocEntry where
  uuid := fun i => bytes.getD i 0
  offsetAddress := ofNat 64 (field bytes 16 8)
  size := ofNat 64 (field bytes 24 8)
  flags := ofNat 64 (field bytes 32 8)

theorem field_append {w n : Nat} (x : BitVec w) {before after : List UInt8} {start : Nat}
    (hw : w = 8 * n) (hstt : before.length = start) :
    ofNat w (field (before ++ (leBytes n x.toNat ++ after)) start n) = x := by
  subst hw
  have hx : x.toNat < 256 ^ n := by
    have hlt := x.isLt
    rwa [pow_mul] at hlt
  rw [field, drop_left' hstt, take_left' (length_leBytes n _), leValue_leBytes hx,
    BitVec.ofNat_toNat, BitVec.setWidth_eq]

@[simp] theorem TocHeader.length_toBytes (h : TocHeader) : h.toBytes.length = sizeofTocHeader := by
  simp [toBytes, sizeofTocHeader]

@[simp] theorem TocEntry.length_toBytes (e : TocEntry) : e.toBytes.length = sizeofTocEntry := by
  simp [toBytes, sizeofTocEntry]

theorem TocHeader.ofBytes_toBytes (h : TocHeader) (after : List UInt8) :
    ofBytes (h.toBytes ++ after) = h := by
  have hname : ofNat 32 (field (h.toBytes ++ after) 0 4) = h.name := by
    exact field_append h.name rfl (show ([] : List UInt8).length = 0 from rfl)
  have hser : ofNat 32 (field (h.toBytes ++ after) 4 4) = h.serialNumber := by
    exact field_append h.serialNumber rfl (length_leBytes 4 _)
  have hfl : ofNat 64 (field (h.toBytes ++ after) 8 8) = h.flags := by
    rw [toBytes, ← append_assoc, append_assoc]
    exact field_append h.flags rfl (by simp)
  rw [ofBytes, hname, hser, hfl]

theorem TocEntry.ofBytes_toBytes (e : TocEntry) (after : List UInt8) :
    ofBytes (e.toBytes ++ after) = e := by
  have huuid : (fun i : Fin 16 => (e.toBytes ++ after).getD i 0) = e.uuid := by
    funext i
    have hi : i.val < (ofFn e.uuid).length := by simp
    rw [toBytes, List.append_assoc, List.getD_eq_getElem?_getD, List.getElem?_append_left hi,
      List.getElem?_eq_getElem hi, Option.getD_some, List.getElem_ofFn]
  have hoff : ofNat 64 (field (e.toBytes ++ after) 16 8) = e.offsetAddress := by
    rw [toBytes, List.append_assoc, List.append_assoc]
    exact field_append e.offsetAddress rfl (length_ofFn)
  have hsize : ofNat 64 (field (e.toBytes ++ after) 24 8) = e.size := by
    rw [toBytes, ← List.append_assoc (ofFn _), List.append_assoc, List.append_assoc]
    exact field_append e.size rfl (by simp)
  have hfl : ofNat 64 (field (e.toBytes ++ after) 32 8) = e.flags := by
    rw [toBytes, ← List.append_assoc (ofFn _), ← List.append_assoc, List.append_assoc]
    exact field_append e.flags rfl (by simp)
  rw [ofBytes, huuid, hoff, hsize, hfl]

end TrustedFirmware.Fip
