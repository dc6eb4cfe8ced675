import TrustedFirmware.Fip.Layout

/-!
# `parse_fip` gives back what `pack_images` has been given

It does so for every package that is as long as its ToC says. A package that is shorter has an empty
image behind its end, and `parse_fip` takes it for a corrupted one.
-/

namespace TrustedFirmware.Fip.Fiptool

open List BitVec

/-! ### The entries of the ToC -/

/-- The entry number `k` of the ToC. -/
def tocEntryAt (file : List UInt8) (k : Nat) : TocEntry :=
  .ofBytes (file.drop (sizeofTocHeader + sizeofTocEntry * k))

theorem ofBytes_drop {after : List UInt8} {entries : List TocEntry} {k : Nat} {e : TocEntry}
    (h : entries[k]? = some e) :
    TocEntry.ofBytes (((entries.map TocEntry.toBytes).flatten ++ after).drop (sizeofTocEntry * k)) =
      e := by
  induction entries generalizing k with
  | nil => simp at h
  | cons first rest ih =>
    cases k with
    | zero =>
      obtain rfl : first = e := by simpa using h
      exact first.ofBytes_toBytes _
    | succ =>
      exact ih (by simpa using h)

variable {tocFlags : BitVec 64} {laid : List Image} {last : TocEntry} {file : List UInt8}
  {image : Image} {descs : List ImageDesc}

section

variable (h : tocBytes tocFlags laid last <+: file)
include h

/-- The ToC that `pack_images` writes. -/
theorem tocEntryAt_eq {k : Nat} {e : TocEntry}
    (he : (laid.map Image.tocE ++ [last])[k]? = some e) : tocEntryAt file k = e := by
  obtain ⟨after, rfl⟩ := h
  have hent : (laid.map fun image => image.tocE.toBytes).flatten ++ last.toBytes =
      ((laid.map Image.tocE ++ [last]).map TocEntry.toBytes).flatten := by
    simp [Function.comp_def]
  rw [tocEntryAt, tocBytes, hent, List.append_assoc, ← List.drop_drop,
    List.drop_left' (TocHeader.length_toBytes _)]
  exact ofBytes_drop he

theorem tocEntryAt_laid {k : Nat}
    (himg : laid[k]? = some image) : tocEntryAt file k = image.tocE := by
  have hk : k < (laid.map Image.tocE).length := by
    rw [length_map]
    exact (List.getElem?_eq_some_iff.mp himg).1
  refine tocEntryAt_eq h ?_
  rw [getElem?_append_left hk, getElem?_map, himg]
  rfl

theorem tocEntryAt_last : tocEntryAt file laid.length = last := by
  refine tocEntryAt_eq h ?_
  rw [getElem?_append_right (by simp), length_map, Nat.sub_self]
  rfl

end

/-! ### The table -/

/-- Every image is in the descriptor for its UUID. -/
def Attached (descs : List ImageDesc) : Prop :=
  ∀ desc ∈ descs, ∀ image, desc.image = some image → image.tocE.uuid = desc.uuid

theorem setImage_spec {descs : List ImageDesc} {desc : ImageDesc} (hatt : Attached descs)
    (hlook : lookupImageDescFromUuid descs image.tocE.uuid = some desc)
    (hnone : desc.image = none) : Attached (setImage image descs) ∧
      (images (setImage image descs)).Perm (image :: images descs) := by
  induction descs with
  | nil => simp [lookupImageDescFromUuid] at hlook
  | cons first rest ih =>
    rw [lookupImageDescFromUuid, find?_cons] at hlook
    obtain ⟨hfirst, hrest⟩ := forall_mem_cons.mp hatt
    by_cases huuid : first.uuid = image.tocE.uuid
    · simp only [huuid, decide_true, Option.some.injEq] at hlook
      subst hlook
      rw [setImage, if_pos huuid]
      refine ⟨forall_mem_cons.mpr ⟨fun other hoth => ?_, hrest⟩, by simp [images, hnone]⟩
      cases hoth
      exact huuid.symm
    · simp only [huuid, decide_false] at hlook
      obtain ⟨hattached', hperm⟩ := ih hrest hlook
      rw [setImage, if_neg huuid]
      refine ⟨forall_mem_cons.mpr ⟨hfirst, hattached'⟩, ?_⟩
      cases hfst : first.image with
      | none => simpa [images, hfst] using hperm
      | some other =>
        have hswap := (hperm.cons other).trans (List.Perm.swap image other (images rest))
        simpa [images, hfst] using hswap

/-- There is a descriptor for the UUID, and one that has been there is for an image with this
UUID. -/
theorem addImageDesc_spec {uuid : Uuid} (hatt : Attached descs)
    (hnew : ∀ other ∈ images descs, other.tocE.uuid ≠ uuid) :
    Attached (addImageDesc descs uuid) ∧ images (addImageDesc descs uuid) = images descs ∧
      ∃ desc, lookupImageDescFromUuid (addImageDesc descs uuid) uuid = some desc ∧
        desc.image = none := by
  rw [addImageDesc]
  cases hlook : lookupImageDescFromUuid descs uuid with
  | none =>
    refine ⟨forall_mem_append.mpr ⟨hatt, by simp [newImageDesc]⟩, by simp [images, newImageDesc],
      newImageDesc uuid, ?_, rfl⟩
    rw [lookupImageDescFromUuid] at hlook ⊢
    rw [find?_append, hlook]
    simp [newImageDesc]
  | some desc =>
    refine ⟨hatt, rfl, desc, hlook, ?_⟩
    have hmem : desc ∈ descs := mem_of_find?_eq_some hlook
    have huuid : desc.uuid = uuid := by simpa using find?_some hlook
    cases himg : desc.image with
    | none => rfl
    | some other =>
      have hoth : other ∈ images descs := mem_filterMap.mpr ⟨desc, hmem, himg⟩
      exact absurd ((hatt desc hmem other himg).trans huuid) (hnew other hoth)

theorem addImage_spec (hatt : Attached descs)
    (hnew : ∀ other ∈ images descs, other.tocE.uuid ≠ image.tocE.uuid) :
    ∃ descs', addImage descs image = .ok descs' ∧ Attached descs' ∧
      (images descs').Perm (image :: images descs) := by
  obtain ⟨hattached₁, himgs, desc, hlook, hnone⟩ := addImageDesc_spec hatt hnew
  obtain ⟨hattached', hperm⟩ := setImage_spec hattached₁ hlook hnone
  refine ⟨_, ?_, hattached', himgs ▸ hperm⟩
  rw [addImage, hlook]
  dsimp only
  rw [hnone]

/-! ### Parsing -/

/-- The payload of the image is in the file, where its entry says. -/
def InFile (file : List UInt8) (image : Image) : Prop :=
  image.tocE.offsetAddress.toNat + image.buffer.length ≤ min file.length (2 ^ 63) ∧
    (file.drop image.tocE.offsetAddress.toNat).take image.buffer.length = image.buffer

theorem readImage_eq (h : InFile file image) : readImage file image.tocE = .ok image := by
  obtain ⟨hend, hby⟩ := h
  have hsize := image.length_eq
  have hle : image.tocE.offsetAddress ≤ allOnes 64 := by
    exact Nat.le_sub_one_of_lt image.tocE.offsetAddress.isLt
  have hover : ¬ image.tocE.size > allOnes 64 - image.tocE.offsetAddress := by
    rw [gt_iff_lt, lt_def, toNat_sub_of_le hle, toNat_allOnes]
    omega
  have hins : ¬ (image.tocE.size + image.tocE.offsetAddress).toNat > file.length := by
    rw [toNat_add, Nat.mod_eq_of_lt (by omega)]
    omega
  rw [readImage, dif_neg hover, dif_neg hins]
  refine congrArg Except.ok (Image.ext rfl ?_)
  show (file.drop _).take image.tocE.size.toNat = _
  rw [← hsize, hby]

/-- The loop of `parse_fip` over the entries that are left. -/
theorem parseEntries_spec {rest : List Image} {k n : Nat} {descs : List ImageDesc}
    (hent : ∀ i image, rest[i]? = some image → tocEntryAt file (k + i) = image.tocE)
    (hlast : (tocEntryAt file (k + rest.length)).uuid = uuidNull) (hn : rest.length < n)
    (himgs : ∀ image ∈ rest, image.tocE.uuid ≠ uuidNull ∧ InFile file image) (hatt : Attached descs)
    (hnd : ((images descs ++ rest).map fun image => image.tocE.uuid).Nodup) :
    ∃ descs', parseEntries file n (sizeofTocHeader + sizeofTocEntry * k) descs = .ok descs' ∧
    (images descs').Perm (images descs ++ rest) := by
  induction rest generalizing k n descs with
  | nil =>
    obtain ⟨n, rfl⟩ := Nat.exists_eq_succ_of_ne_zero (ne_of_gt hn)
    refine ⟨descs, ?_, by simp⟩
    have hen : parseEntry file (sizeofTocHeader + sizeofTocEntry * k) descs = .ok none :=
      if_pos hlast
    rw [parseEntries, hen]
  | cons image rest ih =>
    obtain ⟨n, rfl⟩ := Nat.exists_eq_succ_of_ne_zero (ne_of_gt (Nat.zero_lt_of_lt hn))
    have hen : TocEntry.ofBytes (file.drop (sizeofTocHeader + sizeofTocEntry * k)) =
        image.tocE := hent 0 image rfl
    obtain ⟨hnull, hfile⟩ := himgs image mem_cons_self
    have hnew : ∀ other ∈ images descs, other.tocE.uuid ≠ image.tocE.uuid := by
      rw [map_append, nodup_append] at hnd
      intro other hoth
      exact hnd.2.2 _ (mem_map_of_mem hoth) _ (mem_map_of_mem mem_cons_self)
    obtain ⟨descs₁, hadd, hattached₁, hperm⟩ := addImage_spec hatt hnew
    have hmove : (images descs₁ ++ rest).Perm (images descs ++ image :: rest) :=
      (hperm.append_right rest).trans perm_middle.symm
    have hidx : ∀ i, k + 1 + i = k + (i + 1) := fun i => by omega
    obtain ⟨descs', hprs, hperm'⟩ := @ih (k + 1) n descs₁
      (fun i other hoth => by rw [hidx]; exact hent (i + 1) other hoth)
      (by rw [hidx]; exact hlast) (Nat.lt_of_succ_lt_succ hn)
      (fun other hoth => himgs other (mem_cons_of_mem _ hoth)) hattached₁
      ((hmove.map _).nodup_iff.mpr hnd)
    refine ⟨descs', ?_, hperm'.trans hmove⟩
    have hrd : parseEntry file (sizeofTocHeader + sizeofTocEntry * k) descs =
        .ok (some descs₁) := by
      rw [parseEntry, hen, if_neg hnull, readImage_eq hfile]
      dsimp only
      rw [hadd]
    rw [parseEntries, hrd]
    exact hprs

theorem parseFip_spec (htoc : tocBytes tocFlags laid last <+: file) (hlast : last.uuid = uuidNull)
    (hlaid : ∀ image ∈ laid, image.tocE.uuid ≠ uuidNull ∧ InFile file image)
    (hnd : (laid.map fun image => image.tocE.uuid).Nodup) {known : List ImageDesc}
    (hkn : ∀ desc ∈ known, desc.image = none) :
    ∃ header descs, parseFip known file = .ok (header, descs) ∧ header.flags = tocFlags ∧
      (images descs).Perm laid := by
  have hlen : bufSize laid.length ≤ file.length := by
    have hle := htoc.length_le
    rwa [length_tocBytes] at hle
  have hhea : TocHeader.ofBytes file = ⟨tocHeaderName, tocHeaderSerialNumber, tocFlags⟩ := by
    obtain ⟨after, rfl⟩ := htoc
    exact TocHeader.ofBytes_toBytes _ _
  have hnone : images known = [] := by
    rw [images, filterMap_eq_nil_iff]
    exact hkn
  have hent : ∀ i image, laid[i]? = some image → tocEntryAt file (0 + i) = image.tocE := by
    intro i image himg
    rw [Nat.zero_add]
    exact tocEntryAt_laid htoc himg
  have hnull : (tocEntryAt file (0 + laid.length)).uuid = uuidNull := by
    rw [zero_add, tocEntryAt_last htoc, hlast]
  have hroom : laid.length < (file.length - sizeofTocHeader) / sizeofTocEntry := by
    rw [Nat.lt_iff_add_one_le, Nat.le_div_iff_mul_le (by decide), mul_comm]
    exact Nat.le_sub_of_add_le' hlen
  have hatt : Attached known := fun desc hdesc image himg => by
    rw [hkn desc hdesc] at himg
    simp at himg
  obtain ⟨descs, hprs, hperm⟩ := parseEntries_spec hent hnull hroom hlaid hatt
    (by rwa [hnone, nil_append])
  rw [hnone, nil_append] at hperm
  refine ⟨⟨tocHeaderName, tocHeaderSerialNumber, tocFlags⟩, descs, ?_, rfl, hperm⟩
  have hlong : ¬ file.length < sizeofTocHeader :=
    not_lt.mpr ((Nat.le_add_right _ _).trans hlen)
  rw [parseFip, if_neg hlong, hhea]
  rw [if_neg (not_not.mpr rfl)]
  change parseEntries file _ sizeofTocHeader known = _ at hprs
  rw [hprs]

/-! ### The round trip -/

/-- What has to hold of a package. -/
structure PackRight (descs : List ImageDesc) (tocFlags align : BitVec 64) (file : List UInt8) :
    Prop where
  /-- The entry behind those of the images is the terminator. -/
  terminated : (tocEntryAt file (images descs).length).uuid = uuidNull
  length_eq : file.length = (tocEntryAt file (images descs).length).offsetAddress.toNat
  aligned : ∀ k < (images descs).length, align.toNat ∣ (tocEntryAt file k).offsetAddress.toNat ∧
      bufSize (images descs).length ≤ (tocEntryAt file k).offsetAddress.toNat
  disjoint : ∀ k < (images descs).length, ∀ j < k,
    (tocEntryAt file j).offsetAddress.toNat + (tocEntryAt file j).size.toNat ≤
      (tocEntryAt file k).offsetAddress.toNat
  /-- The bytes of each image are where its entry says. -/
  payload : ∀ k image, (images descs)[k]? = some image →
    (tocEntryAt file k).uuid = image.tocE.uuid ∧ (tocEntryAt file k).flags = image.tocE.flags ∧
      (file.drop (tocEntryAt file k).offsetAddress.toNat).take (tocEntryAt file k).size.toNat =
        image.buffer
  /-- The same images and flags come back, whatever UUIDs are known. -/
  parsed : ∀ known : List ImageDesc, (∀ desc ∈ known, desc.image = none) →
    ∃ header descs', parseFip known file = .ok (header, descs') ∧ header.flags = tocFlags ∧
      ((images descs').map Image.data).Perm ((images descs).map Image.data)

/-- **A package can be read back**, and it is laid out as it has to be, exactly if there is no empty
image at its end, or what is before fills whole units of the alignment. -/
theorem pack_images_round_trip_iff {descs : List ImageDesc} {align : BitVec 64} {a : Nat}
    (tocFlags : BitVec 64) (halign : align.toNat = 2 ^ a)
    (hnodup : ((images descs).map fun image => image.tocE.uuid).Nodup)
    (hnull : ∀ image ∈ images descs, image.tocE.uuid ≠ uuidNull)
    (hfits : packedSize (2 ^ a) (images descs) < 2 ^ 63) :
    (∃ file, packImages descs tocFlags align = some file ∧ PackRight descs tocFlags align file) ↔
      Tight align.toNat (images descs) := by
  have hA : 0 < 2 ^ a := Nat.two_pow_pos a
  obtain ⟨laid, last, file, hpack, hpld, hdata, hlast, hoff, htoc, hlen, hall⟩ :=
    packImages_spec halign tocFlags hfits
  have hlaid : laid.length = (images descs).length := by simpa using congrArg length hdata
  have hend : tocEntryAt file (images descs).length = last := by
    rw [← hlaid]
    exact tocEntryAt_last htoc
  rw [halign, ← length_eq_iff hA, ← hlen]
  constructor
  · rintro ⟨file', hpack', hrt⟩
    obtain rfl : file = file' := Option.some.inj (hpack.symm.trans hpack')
    rw [hrt.length_eq, hend, hoff]
  intro hex
  have hen : ∀ k < (images descs).length, ∃ image ∈ laid, laid[k]? = some image ∧
      tocEntryAt file k = image.tocE := by
    intro k hk
    rw [← hlaid] at hk
    exact ⟨laid[k], getElem_mem hk, getElem?_eq_getElem hk,
      tocEntryAt_laid htoc (getElem?_eq_getElem hk)⟩
  refine ⟨file, hpack, ?_, ?_, fun k hk => ?_, fun k hk j hj => ?_, fun k image himg => ?_,
    fun known hkn => ?_⟩
  · rw [hend, hlast]
  · rw [hend, hoff, hex]
  · obtain ⟨image, himg, -, hk⟩ := hen k hk
    obtain ⟨hdvd, hlow, -⟩ := hpld.bounds hA image himg
    rw [hk, halign]
    exact ⟨hdvd, hlow⟩
  · obtain ⟨image, -, hat, hent⟩ := hen k hk
    obtain ⟨image', -, hat', hentr⟩ := hen j (hj.trans hk)
    obtain ⟨hk', rfl⟩ := List.getElem?_eq_some_iff.mp hat
    obtain ⟨hj', rfl⟩ := List.getElem?_eq_some_iff.mp hat'
    have hbeh := pairwise_iff_getElem.mp (hpld.pairwise hA) j k hj' hk' hj
    rw [hentr, hent, ← laid[j].length_eq]
    exact hbeh
  · obtain ⟨image', hmem, hat, hk⟩ := hen k (List.getElem?_eq_some_iff.mp himg).1
    have hsame : image'.data = image.data := by
      have hkth := congrArg (fun l => l[k]?) hdata
      simpa [getElem?_map, hat, himg] using hkth
    obtain ⟨huuid, hbuf, hfl⟩ := by simpa [Image.data] using hsame
    rw [hk, ← image'.length_eq, hall image' hmem]
    exact ⟨huuid, hfl, hbuf⟩
  · have huui : (laid.map fun image => image.tocE.uuid) =
        (images descs).map fun image => image.tocE.uuid := by
      have hfst := congrArg (map Prod.fst) hdata
      rw [map_map, map_map] at hfst
      exact hfst
    have hin : ∀ image ∈ laid, image.tocE.uuid ≠ uuidNull ∧ InFile file image := by
      intro image himg
      have hle : (extent (2 ^ a) (images descs)).1 ≤ packedSize (2 ^ a) (images descs) :=
        le_roundUp hA
      refine ⟨fun hzero => ?_, ?_, hall image himg⟩
      · have hmem : image.tocE.uuid ∈ (images descs).map fun image => image.tocE.uuid :=
          huui ▸ mem_map_of_mem himg
        obtain ⟨other, hoth, hsame⟩ := mem_map.mp hmem
        exact hnull other hoth (hsame.trans hzero)
      · have hbd := (hpld.bounds hA image himg).2.2
        omega
    obtain ⟨header, descs', hprs, hfl, hperm⟩ :=
      parseFip_spec htoc hlast hin (huui ▸ hnodup) hkn
    exact ⟨header, descs', hprs, hfl, hdata ▸ hperm.map Image.data⟩

/-! ### Two packages with an alignment of 64 bytes -/

/-- A descriptor with an image. -/
def descOf (uuid : Uuid) (flags : BitVec 64) (buffer : List UInt8)
    (h : buffer.length = (BitVec.ofNat 64 buffer.length).toNat) : ImageDesc where
  uuid := uuid
  name := ""
  cmdlineName := ""
  action := .pack
  actionArg := none
  image := some ⟨⟨uuid, 0, BitVec.ofNat 64 buffer.length, flags⟩, buffer, h⟩

/-- An empty image and one of three bytes. -/
def twoImages : List ImageDesc :=
  [descOf (fun _ => 1) 5 [] (by decide), descOf (fun _ => 2) 6 [7, 8, 9] (by decide)]

theorem pack_images_round_trip_two :
    ∃ file, packImages twoImages 3 64 = some file ∧ PackRight twoImages 3 64 file := by
  have htig : Tight (64 : BitVec 64).toNat (images twoImages) := by
    refine .inl fun image himg => ?_
    obtain rfl : image = ⟨⟨fun _ => 2, 0, 3, 6⟩, [7, 8, 9], by decide⟩ :=
      (Option.mem_some_iff.mp himg).symm
    simp
  have hal : (64 : BitVec 64).toNat = 2 ^ 6 := by decide
  exact (pack_images_round_trip_iff 3 hal (by decide) (by decide) (by decide)).mpr htig

/-- One empty image: its offset is 128, but the file ends with the ToC after 96 bytes. -/
theorem empty_image_not_parsed : ∃ file,
    packImages [descOf (fun _ => 1) 5 [] (by decide)] 3 64 = some file ∧ file.length = 96 ∧
      (tocEntryAt file 0).offsetAddress = 128 ∧ (tocEntryAt file 1).offsetAddress = 128 ∧
      parseFip [] file = .error .corrupted := by
  have hany : (packImages [descOf (fun _ => 1) 5 [] (by decide)] 3 64).any (fun file =>
      decide (file.length = 96 ∧ (tocEntryAt file 0).offsetAddress = 128 ∧
        (tocEntryAt file 1).offsetAddress = 128) &&
      match parseFip [] file with
      | .error e => decide (e = .corrupted)
      | .ok _ => false) = true := by decide +kernel
  obtain ⟨file, hpack, hend⟩ := (Option.any_eq_true _ _).mp hany
  obtain ⟨hfile, hprs⟩ := Bool.and_eq_true_iff.mp hend
  obtain ⟨hlen, hfst, hlast⟩ := of_decide_eq_true hfile
  refine ⟨file, hpack, hlen, hfst, hlast, ?_⟩
  generalize parseFip [] file = r at hprs
  cases r with
  | error => rw [of_decide_eq_true hprs]
  | ok => simp at hprs

end TrustedFirmware.Fip.Fiptool
