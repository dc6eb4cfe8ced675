import TrustedFirmware.Fip.Format

/-!
# How `fiptool` writes a package (`pack_images`) and reads one (`parse_fip`)

Its images are in a table of descriptors, of which those for known UUIDs are there from the start;
`parse_fip` adds one for each UUID that it does not know.

A file is its bytes and a position. Moving the position beyond the end of the file does not make the
file longer, but writing there does, and there are zeros up to that position then.
-/

namespace TrustedFirmware.Fip.Fiptool

open BitVec

/-! ### Images and descriptors -/

/-- `image_t`: the entry of the ToC and the bytes. -/
@[ext] structure Image where
  tocE : TocEntry
  buffer : List UInt8
  length_eq : buffer.length = tocE.size.toNat

/-- `desc->action`. -/
inductive Action
  | unspec
  | pack
  | unpack
  | remove
  deriving DecidableEq

/-- `image_desc_t`. -/
structure ImageDesc where
  uuid : Uuid
  name : String
  cmdlineName : String
  action : Action
  actionArg : Option String
  image : Option Image

/-- The images of the table, in its order. -/
def images (descs : List ImageDesc) : List Image := descs.filterMap (·.image)

/-! ### Files -/

structure File where
  content : List UInt8
  pos : Nat

/-- `fseek`; the offset is a `long`. -/
def File.fseek (f : File) (offset : BitVec 64) : Option File :=
  if 0 ≤ offset.toInt then some { f with pos := offset.toNat } else none

/-- `fwrite`. -/
def File.fwrite (f : File) (data : List UInt8) : File :=
  if data = [] then f
  else
    { content := (f.content ++ List.replicate (f.pos - f.content.length) 0).take f.pos ++ data ++
        f.content.drop (f.pos + data.length)
      pos := f.pos + data.length }

/-- `while (pad_size--) fputc(0x0, fp)`. -/
def File.pad : Nat → File → File
  | 0, f => f
  | n + 1, f => File.pad n (f.fwrite [0])

/-! ### Writing a package -/

/-- The next multiple of the alignment. -/
def alignUp (entryOffset align : BitVec 64) : BitVec 64 :=
  (entryOffset + align - 1) &&& ~~~ (align - 1)

/-- The first loop of `pack_images`: the offsets of the images, and the end of the last one. -/
def layout (align : BitVec 64) : BitVec 64 → List Image → List Image × BitVec 64
  | entryOffset, [] => ([], entryOffset)
  | entryOffset, image :: rest =>
    let entryOffset := alignUp entryOffset align
    let image := { image with tocE := { image.tocE with offsetAddress := entryOffset } }
    let (rest, entryOffset) := layout align (entryOffset + image.tocE.size) rest
    (image :: rest, entryOffset)

/-- The second loop of `pack_images`; `none` is the end of the program after an error. -/
def writeImages : File → List Image → Option File
  | f, [] => some f
  | f, image :: rest =>
    match f.fseek image.tocE.offsetAddress with
    | none => none
    | some f => writeImages (f.fwrite image.buffer) rest

/-- `buf_size`. -/
def bufSize (n : Nat) : Nat := sizeofTocHeader + sizeofTocEntry * (n + 1)

/-- The ToC terminator. -/
def terminator (entryOffset align : BitVec 64) : TocEntry :=
  ⟨uuidNull, alignUp entryOffset align, 0, 0⟩

/-- The header and the ToC entries. -/
def tocBytes (tocFlags : BitVec 64) (laid : List Image) (last : TocEntry) : List UInt8 :=
  (⟨tocHeaderName, tocHeaderSerialNumber, tocFlags⟩ : TocHeader).toBytes ++
    ((laid.map fun image => image.tocE.toBytes).flatten ++ last.toBytes)

/-- `pack_images`, with the bytes of the file that it makes. -/
def packImages (descs : List ImageDesc) (tocFlags align : BitVec 64) : Option (List UInt8) :=
  let nrImages := (images descs).length
  let (laid, entryOffset) := layout align (BitVec.ofNat 64 (bufSize nrImages)) (images descs)
  let last := terminator entryOffset align
  let fp := File.fwrite ⟨[], 0⟩ (tocBytes tocFlags laid last)
  match writeImages fp laid with
  | none => none
  | some fp =>
    match fp.fseek entryOffset with
    | none => none
    | some fp => some (fp.pad (last.offsetAddress - entryOffset).toNat).content

/-! ### Reading a package -/

/-- How `parse_fip` ends when it does not return. -/
inductive Failure
  | truncated
  | notFip
  | corrupted
  | notTerminated
  | assertFailed
  deriving DecidableEq

def hexDigits : List Char :=
  ['0', '1', '2', '3', '4', '5', '6', '7', '8', '9', 'A', 'B', 'C', 'D', 'E', 'F']

/-- The format `%02X`. -/
def hex (b : UInt8) : List Char :=
  [hexDigits.getD (b.toNat / 16) '0', hexDigits.getD (b.toNat % 16) '0']

/-- `uuid_to_str`. -/
def uuidToStr (uuid : Uuid) : String :=
  let byte (i : Fin 16) : List Char :=
    if i = 4 ∨ i = 6 ∨ i = 8 ∨ i = 10 then '-' :: hex (uuid i) else hex (uuid i)
  String.ofList ((List.ofFn byte).flatten)

/-- `lookup_image_desc_from_uuid`. -/
def lookupImageDescFromUuid (descs : List ImageDesc) (uuid : Uuid) : Option ImageDesc :=
  descs.find? fun desc => desc.uuid = uuid

/-- `desc->image = image`, for the descriptor that has been looked up. -/
def setImage (image : Image) : List ImageDesc → List ImageDesc
  | [] => []
  | desc :: descs =>
    if desc.uuid = image.tocE.uuid then { desc with image := some image } :: descs
    else desc :: setImage image descs

/-- The descriptor for a UUID that is not known. -/
def newImageDesc (uuid : Uuid) : ImageDesc where
  uuid := uuid
  name := uuidToStr uuid
  cmdlineName := "blob"
  action := .unpack
  actionArg := some (uuidToStr uuid ++ ".bin")
  image := none

/-- If this is an unknown image, a descriptor is created for it. -/
def addImageDesc (descs : List ImageDesc) (uuid : Uuid) : List ImageDesc :=
  match lookupImageDescFromUuid descs uuid with
  | none => descs ++ [newImageDesc uuid]
  | some _ => descs

/-- An image is put into the table. -/
def addImage (descs : List ImageDesc) (image : Image) : Except Failure (List ImageDesc) :=
  match lookupImageDescFromUuid (addImageDesc descs image.tocE.uuid) image.tocE.uuid with
  | none => .error .assertFailed
  | some desc =>
    match desc.image with
    | none => .ok (setImage image (addImageDesc descs image.tocE.uuid))
    | some _ => .error .assertFailed

/-- The checks of `parse_fip`: the payload is in the file. -/
theorem add_le_of_checks {e : TocEntry} {n : Nat}
    (hover : ¬ e.size > allOnes 64 - e.offsetAddress)
    (hend : ¬ (e.size + e.offsetAddress).toNat > n) :
    e.offsetAddress.toNat + e.size.toNat ≤ n := by
  have hlt := e.offsetAddress.isLt
  have hle : e.offsetAddress ≤ allOnes 64 := by
    exact Nat.le_sub_one_of_lt hlt
  rw [gt_iff_lt, lt_def, toNat_sub_of_le hle, toNat_allOnes] at hover
  rw [toNat_add, Nat.mod_eq_of_lt (by omega)] at hend
  omega

/-- The image of an entry. -/
def readImage (file : List UInt8) (e : TocEntry) : Except Failure Image :=
  if hover : e.size > allOnes 64 - e.offsetAddress then .error .corrupted
  else if hend : (e.size + e.offsetAddress).toNat > file.length then .error .corrupted
  else
    .ok ⟨e, (file.drop e.offsetAddress.toNat).take e.size.toNat, by
      have hin := add_le_of_checks hover hend
      rw [List.length_take, List.length_drop]
      omega⟩

/-- One round of the loop of `parse_fip`; `none` for the ToC terminator. -/
def parseEntry (file : List UInt8) (pos : Nat) (descs : List ImageDesc) :
    Except Failure (Option (List ImageDesc)) :=
  let tocEntry := TocEntry.ofBytes (file.drop pos)
  if tocEntry.uuid = uuidNull then .ok none
  else
    match readImage file tocEntry with
    | .error e => .error e
    | .ok image =>
      match addImage descs image with
      | .error e => .error e
      | .ok descs => .ok (some descs)

/-- The loop of `parse_fip`, for a file with `n` whole entries from `pos` on: the code goes on while
an entry is in the file. -/
def parseEntries (file : List UInt8) : Nat → Nat → List ImageDesc → Except Failure (List ImageDesc)
  | 0, _, _ => .error .notTerminated
  | n + 1, pos, descs =>
    match parseEntry file pos descs with
    | .error e => .error e
    | .ok none => .ok descs
    | .ok (some descs) => parseEntries file n (pos + sizeofTocEntry) descs

/-- `parse_fip`: the header and the table of descriptors. -/
def parseFip (descs : List ImageDesc) (file : List UInt8) :
    Except Failure (TocHeader × List ImageDesc) :=
  if file.length < sizeofTocHeader then .error .truncated
  else
    let tocHeader := TocHeader.ofBytes file
    if tocHeader.name ≠ tocHeaderName then .error .notFip
    else
      match parseEntries file ((file.length - sizeofTocHeader) / sizeofTocEntry) sizeofTocHeader
        descs with
      | .error e => .error e
      | .ok descs => .ok (tocHeader, descs)

end TrustedFirmware.Fip.Fiptool
