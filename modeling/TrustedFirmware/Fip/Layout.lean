import TrustedFirmware.Fip.Fiptool
import TrustedFirmware.Lib.Bits

/-!
# Where `pack_images` puts the payloads, and how long the file is

Each payload is at the next multiple of the alignment behind the one before.

The end of the ToC says how long the file has to be. It is padded up to there **only if there is
something to pad behind the last image**: behind an empty image there is not, since its offset is
aligned already, and the bytes up to that offset are never written.
-/

namespace TrustedFirmware.Fip.Fiptool

open Lib List BitVec File

/-! ### Rounding up -/

/-- The next multiple of `A`. -/
def roundUp (A e : Nat) : Nat := (e + A - 1) / A * A

variable {A e : Nat}

theorem dvd_roundUp : A ∣ roundUp A e := Dvd.intro_left _ rfl

theorem le_roundUp (hA : 0 < A) : e ≤ roundUp A e := by
  have hdm := Nat.div_add_mod (e + A - 1) A
  have hlt := Nat.mod_lt (e + A - 1) hA
  rw [roundUp, mul_comm]
  omega

theorem roundUp_of_dvd (hA : 0 < A) (h : A ∣ e) : roundUp A e = e := by
  obtain ⟨c, rfl⟩ := h
  have hdiv : (A * c + A - 1) / A = c := by
    rw [Nat.add_sub_assoc hA, Nat.mul_add_div hA, Nat.div_eq_of_lt (Nat.sub_one_lt_of_lt hA),
      add_zero]
  rw [roundUp, hdiv, mul_comm]

theorem roundUp_eq_iff (hA : 0 < A) : roundUp A e = e ↔ A ∣ e :=
  ⟨fun h => h ▸ dvd_roundUp, roundUp_of_dvd hA⟩

theorem roundUp_roundUp (hA : 0 < A) : roundUp A (roundUp A e) = roundUp A e :=
  roundUp_of_dvd hA dvd_roundUp

variable {align : BitVec 64} {a : Nat}

/-- What the code computes, as long as it does not wrap around. -/
theorem toNat_alignUp {e : BitVec 64} (hal : align.toNat = 2 ^ a)
    (hpos : 0 < e.toNat) (hfits : roundUp (2 ^ a) e.toNat < 2 ^ 63) :
    (alignUp e align).toNat = roundUp (2 ^ a) e.toNat := by
  have hA : 0 < 2 ^ a := Nat.two_pow_pos a
  have hle := le_roundUp hA (e := e.toNat)
  -- The multiple is not 0, so that the alignment is no more than the multiple.
  have hAle : 2 ^ a ≤ roundUp (2 ^ a) e.toNat := Nat.le_of_dvd (by omega) dvd_roundUp
  have ha : a ≤ 64 := by
    have hlt := align.isLt
    rw [hal] at hlt
    exact ((Nat.pow_lt_pow_iff_right (by decide)).mp hlt).le
  have hmask : align - 1 = BitVec.ofNat 64 (2 ^ a - 1) := by
    apply eq_of_toNat_eq
    have hone : (1 : BitVec 64).toNat = 1 := rfl
    rw [toNat_lowMask ha, toNat_sub_of_le (le_def.mpr (by omega)), hal, hone]
  have hsum : (e + align - 1).toNat = e.toNat + 2 ^ a - 1 := by
    have hone : (1 : BitVec 64).toNat = 1 := rfl
    have hadd : (e + align).toNat = e.toNat + 2 ^ a := by
      rw [toNat_add, hal, Nat.mod_eq_of_lt (by omega)]
    rw [toNat_sub_of_le (le_def.mpr (by omega)), hadd, hone]
  rw [alignUp, hmask, toNat_and_not_lowMask ha, hsum, roundUp]

/-! ### The payloads -/

/-- Where an image of `n` bytes ends, and the file after it, for the last payload that ends at `s.1`
and a file that ends at `s.2`. -/
def placeNext (A : Nat) (s : Nat × Nat) (n : Nat) : Nat × Nat :=
  (roundUp A s.1 + n, if n = 0 then s.2 else roundUp A s.1 + n)

/-- The images are one behind the other from `e` on, up to `last`. -/
def Placed (A : Nat) : Nat → List Image → Nat → Prop
  | e, [], last => last = e
  | e, image :: rest, last =>
    image.tocE.offsetAddress.toNat = roundUp A e ∧
      Placed A (roundUp A e + image.buffer.length) rest last

/-- What `pack_images` does not set. -/
def Image.data (image : Image) : Uuid × List UInt8 × BitVec 64 :=
  (image.tocE.uuid, image.buffer, image.tocE.flags)

/-- How long the images are. -/
def sizes (l : List Image) : List Nat := l.map fun image => image.buffer.length

theorem le_extent (hA : 0 < A) (l : List Nat) (s : Nat × Nat) :
    s.1 ≤ (l.foldl (placeNext A) s).1 := by
  induction l generalizing s with
  | nil => exact le_rfl
  | cons n l ih => exact ((le_roundUp hA).trans (Nat.le_add_right _ n)).trans (ih (placeNext A s n))

/-- The first loop of `pack_images` places the images. -/
theorem layout_placed (hal : align.toNat = 2 ^ a) (l : List Image) (p : Nat) {e : BitVec 64}
    (hpos : 0 < e.toNat)
    (hfits : roundUp (2 ^ a) ((sizes l).foldl (placeNext (2 ^ a)) (e.toNat, p)).1 < 2 ^ 63) :
    Placed (2 ^ a) e.toNat (layout align e l).1 (layout align e l).2.toNat ∧
      (layout align e l).1.map Image.data = l.map Image.data ∧
      (layout align e l).2.toNat = ((sizes l).foldl (placeNext (2 ^ a)) (e.toNat, p)).1 := by
  have hA : 0 < 2 ^ a := Nat.two_pow_pos a
  induction l generalizing p e with
  | nil => exact ⟨rfl, rfl, rfl⟩
  | cons image rest ih =>
    have hbuf := image.length_eq
    have hmono := le_extent hA (sizes rest) (placeNext (2 ^ a) (e.toNat, p) image.buffer.length)
    have hlast := le_roundUp hA
      (e := ((sizes (image :: rest)).foldl (placeNext (2 ^ a)) (e.toNat, p)).1)
    have hend : roundUp (2 ^ a) e.toNat + image.buffer.length < 2 ^ 63 :=
      lt_of_le_of_lt (hmono.trans hlast) hfits
    have hoff : (alignUp e align).toNat = roundUp (2 ^ a) e.toNat :=
      toNat_alignUp hal hpos (by omega)
    have hnext : (alignUp e align + image.tocE.size).toNat =
        roundUp (2 ^ a) e.toNat + image.buffer.length := by
      rw [toNat_add, hoff, ← hbuf, Nat.mod_eq_of_lt (by omega)]
    have hle := le_roundUp hA (e := e.toNat)
    obtain ⟨hpld, hdata, hend'⟩ := ih (placeNext (2 ^ a) (e.toNat, p) image.buffer.length).2
      (e := alignUp e align + image.tocE.size) (by omega) (by rw [hnext]; exact hfits)
    rw [hnext] at hpld hend'
    refine ⟨⟨hoff, hpld⟩, ?_, hend'⟩
    exact congrArg₂ List.cons rfl hdata

theorem Placed.last_eq : ∀ {l : List Image} {e last : Nat} (p : Nat), Placed A e l last →
    last = ((sizes l).foldl (placeNext A) (e, p)).1 := by
  intro l
  induction l with
  | nil => exact fun _ h => h
  | cons image rest ih => exact fun p h => ih _ h.2

theorem Placed.le_last (hA : 0 < A) {l : List Image} {e last : Nat} (h : Placed A e l last) :
    e ≤ last := by
  rw [h.last_eq e]
  exact le_extent hA _ (e, e)

/-- Every image is aligned, and between the start and the end. -/
theorem Placed.bounds (hA : 0 < A) {l : List Image} {e last : Nat} (h : Placed A e l last) :
    ∀ image ∈ l, A ∣ image.tocE.offsetAddress.toNat ∧ e ≤ image.tocE.offsetAddress.toNat ∧
      image.tocE.offsetAddress.toNat + image.buffer.length ≤ last := by
  induction l generalizing e with
  | nil => simp
  | cons first rest ih =>
    intro image himg
    obtain ⟨hoff, hrest⟩ := h
    have hle := le_roundUp hA (e := e)
    rcases mem_cons.mp himg with rfl | himg
    · rw [hoff]
      exact ⟨dvd_roundUp, hle, hrest.le_last hA⟩
    · obtain ⟨hdvd, hlow, hhigh⟩ := ih hrest image himg
      exact ⟨hdvd, by omega, hhigh⟩

theorem Placed.pairwise (hA : 0 < A) {l : List Image} {e last : Nat} (h : Placed A e l last) :
    l.Pairwise fun i j => i.tocE.offsetAddress.toNat + i.buffer.length ≤
    j.tocE.offsetAddress.toNat := by
  induction l generalizing e with
  | nil => exact List.Pairwise.nil
  | cons first rest ih =>
    obtain ⟨hoff, hrest⟩ := h
    refine List.Pairwise.cons (fun image himg => ?_) (ih hrest)
    rw [hoff]
    exact (hrest.bounds hA image himg).2.1

/-! ### The file -/

theorem File.fwrite_append {f : File} {data : List UInt8} (hpos : f.content.length ≤ f.pos)
    (hdata : data ≠ []) :
    f.fwrite data = ⟨f.content ++ (List.replicate (f.pos - f.content.length) 0 ++ data),
      f.pos + data.length⟩ := by
  have hall : (f.content ++ List.replicate (f.pos - f.content.length) 0).length = f.pos := by
    rw [List.length_append, List.length_replicate, Nat.add_sub_cancel' hpos]
  rw [fwrite, if_neg hdata, take_of_length_le hall.le,
    drop_eq_nil_of_le (hpos.trans (Nat.le_add_right _ _)), append_nil,
    List.append_assoc]

/-- What is written there is read back, and the file is no longer than that. -/
theorem File.fwrite_spec {f : File} (hpos : f.content.length ≤ f.pos) (data : List UInt8) :
    f.content <+: (f.fwrite data).content ∧
      (f.fwrite data).content.length =
        (if data.length = 0 then f.content.length else f.pos + data.length) ∧
      ((f.fwrite data).content.drop f.pos).take data.length = data := by
  by_cases hdata : data = []
  · rw [hdata]
    exact ⟨prefix_refl _, rfl, take_zero⟩
  · have hall : (f.content ++ List.replicate (f.pos - f.content.length) 0).length = f.pos := by
      rw [List.length_append, List.length_replicate, Nat.add_sub_cancel' hpos]
    rw [fwrite_append hpos hdata, if_neg fun h => hdata (length_eq_zero_iff.mp h)]
    refine ⟨prefix_append _ _, ?_, ?_⟩
    · rw [← List.append_assoc, List.length_append, hall]
    · rw [← List.append_assoc, List.drop_left' hall, List.take_length]

theorem File.fseek_eq {f : File} {offset : BitVec 64} (h : offset.toNat < 2 ^ 63) :
    f.fseek offset = some { f with pos := offset.toNat } := by
  rw [fseek, if_pos]
  rw [toInt_eq_toNat_of_lt (by omega)]
  exact Int.natCast_nonneg _

theorem take_drop_keeps {l l' data : List UInt8} {start : Nat} (h : l <+: l')
    (hdata : (l.drop start).take data.length = data) :
    (l'.drop start).take data.length = data := by
  obtain ⟨more, rfl⟩ := h
  by_cases hemp : data = []
  · rw [hemp]
    exact take_zero
  · have hlen := congrArg length hdata
    have hpos := length_pos_iff.mpr hemp
    rw [length_take, length_drop] at hlen
    rw [drop_append_of_le_length (by omega), take_append_of_le_length, hdata]
    rw [length_drop]
    omega

/-- The second loop of `pack_images`. -/
theorem writeImages_placed (hA : 0 < A) {l : List Image} {e last : Nat} {f : File}
    (h : Placed A e l last) (hfits : last < 2 ^ 63) (hlen : f.content.length ≤ e) :
    ∃ f', writeImages f l = some f' ∧ f.content <+: f'.content ∧
    f'.content.length = ((sizes l).foldl (placeNext A) (e, f.content.length)).2 ∧
    f'.content.length ≤ last ∧
    ∀ image ∈ l, (f'.content.drop image.tocE.offsetAddress.toNat).take image.buffer.length =
      image.buffer := by
  induction l generalizing e last f with
  | nil =>
    obtain rfl : last = e := h
    exact ⟨f, rfl, prefix_refl _, rfl, hlen,
      fun image himg => absurd himg not_mem_nil⟩
  | cons image rest ih =>
    obtain ⟨hoff, hrest⟩ := h
    have hle := le_roundUp hA (e := e)
    have hlast := hrest.le_last hA
    have hseek : f.fseek image.tocE.offsetAddress = some { f with pos := roundUp A e } := by
      rw [fseek_eq (by omega), hoff]
    obtain ⟨hpre, hlen₁, hdata⟩ :=
      fwrite_spec (f := { f with pos := roundUp A e }) (hlen.trans hle) image.buffer
    generalize hf₁ : fwrite { f with pos := roundUp A e } image.buffer = f₁ at hpre hlen₁ hdata
    dsimp only at hpre hlen₁ hdata
    obtain ⟨f', hwri, hkeep, hleng, hbd, hall⟩ := ih hrest hfits <| by
      rw [hlen₁]
      split <;> omega
    refine ⟨f', ?_, hpre.trans hkeep, ?_, hbd, forall_mem_cons.mpr ⟨?_, hall⟩⟩
    · rw [writeImages, hseek]
      dsimp only
      rw [hf₁]
      exact hwri
    · rw [hleng, hlen₁]
      rfl
    · rw [hoff]
      exact take_drop_keeps hkeep hdata

theorem File.pad_content (n : Nat) {f : File} (hpos : f.content.length ≤ f.pos) :
    f.content <+: (pad n f).content ∧
    (pad n f).content.length = if n = 0 then f.content.length else f.pos + n := by
  induction n generalizing f with
  | zero => exact ⟨prefix_refl _, rfl⟩
  | succ n ih =>
    obtain ⟨hpre, hlen, -⟩ := fwrite_spec hpos [0]
    have hlen : (f.fwrite [0]).content.length = f.pos + 1 := hlen
    have hpos₁ : (f.fwrite [0]).pos = f.pos + 1 := rfl
    obtain ⟨hkeep, hle⟩ := ih (by rw [hlen, hpos₁])
    refine ⟨hpre.trans hkeep, ?_⟩
    show (pad n (f.fwrite [0])).content.length = f.pos + (n + 1)
    rw [hle, hlen, hpos₁]
    split <;> omega

/-! ### `pack_images` -/

/-- Where the last image ends, and where the file ends before the padding. -/
def extent (A : Nat) (l : List Image) : Nat × Nat :=
  (sizes l).foldl (placeNext A) (bufSize l.length, bufSize l.length)

/-- The offset in the ToC terminator. -/
def packedSize (A : Nat) (l : List Image) : Nat := roundUp A (extent A l).1

theorem length_tocBytes (tocFlags : BitVec 64) (laid : List Image) (last : TocEntry) :
    (tocBytes tocFlags laid last).length = bufSize laid.length := by
  have hent : ((laid.map fun image => image.tocE.toBytes).flatten).length =
      sizeofTocEntry * laid.length := by
    simp [length_flatten, Function.comp_def, TocEntry.length_toBytes, mul_comm]
  rw [tocBytes, length_append, length_append, hent, TocHeader.length_toBytes,
    TocEntry.length_toBytes, bufSize, Nat.mul_add, mul_one]

/-- **The file of a package**: the ToC, and every image at the place that the ToC says. -/
theorem packImages_spec (hal : align.toNat = 2 ^ a)
    {descs : List ImageDesc} (tocFlags : BitVec 64)
    (hfits : packedSize (2 ^ a) (images descs) < 2 ^ 63) :
    ∃ laid last file, packImages descs tocFlags align = some file ∧
      Placed (2 ^ a) (bufSize (images descs).length) laid (extent (2 ^ a) (images descs)).1 ∧
      laid.map Image.data = (images descs).map Image.data ∧
      last.uuid = uuidNull ∧ last.offsetAddress.toNat = packedSize (2 ^ a) (images descs) ∧
      tocBytes tocFlags laid last <+: file ∧
      file.length = (if packedSize (2 ^ a) (images descs) = (extent (2 ^ a) (images descs)).1 then
        (extent (2 ^ a) (images descs)).2 else packedSize (2 ^ a) (images descs)) ∧
      ∀ image ∈ laid, (file.drop image.tocE.offsetAddress.toNat).take image.buffer.length =
        image.buffer := by
  have hA : 0 < 2 ^ a := Nat.two_pow_pos a
  rw [packImages]
  generalize images descs = imgs at hfits ⊢
  have hE : (extent (2 ^ a) imgs).1 ≤ packedSize (2 ^ a) imgs := le_roundUp hA
  have hstt : bufSize imgs.length ≤ (extent (2 ^ a) imgs).1 :=
    le_extent hA _ (bufSize imgs.length, _)
  have hnat : (BitVec.ofNat 64 (bufSize imgs.length)).toNat = bufSize imgs.length := by
    rw [BitVec.toNat_ofNat, Nat.mod_eq_of_lt (by omega)]
  have hpos : 0 < bufSize imgs.length := Nat.add_pos_left (by decide) _
  obtain ⟨hpld, hdata, hend⟩ := layout_placed hal imgs (bufSize imgs.length)
    (by rwa [hnat]) (by rw [hnat]; exact hfits)
  rw [hnat] at hpld hend
  generalize layout align (BitVec.ofNat 64 (bufSize imgs.length)) imgs = l at hpld hdata hend ⊢
  obtain ⟨laid, entryOffset⟩ := l
  dsimp only at hpld hdata hend ⊢
  change entryOffset.toNat = (extent (2 ^ a) imgs).1 at hend
  rw [hend] at hpld
  have hlaid : laid.length = imgs.length := by
    simpa using congrArg length hdata
  have hsz : sizes laid = sizes imgs := by
    have hsnd := congrArg (map fun d : Uuid × List UInt8 × BitVec 64 => d.2.1.length) hdata
    rw [map_map, map_map] at hsnd
    exact hsnd
  have hnull : (terminator entryOffset align).uuid = uuidNull := rfl
  have hlast : (terminator entryOffset align).offsetAddress.toNat = packedSize (2 ^ a) imgs := by
    show (alignUp entryOffset align).toNat = _
    rw [toNat_alignUp hal (by omega) (by rw [hend]; exact hfits), hend]
    rfl
  generalize terminator entryOffset align = last at hnull hlast ⊢
  have hlen := length_tocBytes tocFlags laid last
  rw [hlaid] at hlen
  -- The ToC is written into an empty file.
  have htoc : fwrite ⟨[], 0⟩ (tocBytes tocFlags laid last) =
      ⟨tocBytes tocFlags laid last, bufSize imgs.length⟩ := by
    rw [fwrite_append le_rfl fun hnil => ?_]
    · simp only [hlen, List.nil_append, zero_add, List.length_nil, Nat.sub_self,
        List.replicate_zero]
    · rw [hnil, List.length_nil] at hlen
      omega
  rw [htoc]
  obtain ⟨f', hwr, hkeep, hle, hbd, hall⟩ := writeImages_placed hA
    (f := ⟨tocBytes tocFlags laid last, bufSize imgs.length⟩) hpld (by omega) hlen.le
  rw [hwr]
  dsimp only
  rw [fseek_eq (by omega)]
  have hpad : (last.offsetAddress - entryOffset).toNat =
      packedSize (2 ^ a) imgs - (extent (2 ^ a) imgs).1 := by
    rw [toNat_sub_of_le (le_def.mpr (by omega)), hlast, hend]
  rw [hpad]
  obtain ⟨hpadKeep, hpadLength⟩ := pad_content (packedSize (2 ^ a) imgs - (extent (2 ^ a) imgs).1)
    (f := { f' with pos := entryOffset.toNat }) (by rw [hend]; exact hbd)
  refine ⟨laid, last, _, rfl, hpld, hdata, hnull, hlast, hkeep.trans hpadKeep, ?_,
    fun image himg => ?_⟩
  · have hcont : f'.content.length = (extent (2 ^ a) imgs).2 := by
      rw [hle, hsz, hlen]
      rfl
    rw [hpadLength, hcont, hend, Nat.add_sub_cancel' hE]
    exact if_congr (by omega) rfl rfl
  · exact take_drop_keeps hpadKeep (hall image himg)

/-! ### The length of the file -/

/-- The size of the last image that is not empty; the size of the ToC if there is none. -/
def lastSize (l : List Image) : Nat :=
  ((sizes l).filter fun n => n ≠ 0).getLast?.getD (bufSize l.length)

/-- There is no empty image at the end, or what is before the empty images at the end fills whole
units of the alignment. -/
def Tight (A : Nat) (l : List Image) : Prop :=
  (∀ image ∈ l.getLast?, image.buffer ≠ []) ∨ A ∣ lastSize l

/-- Behind the last image that is not empty there is only rounding up. -/
theorem placeNext_foldl_end (hA : 0 < A) (start : Nat) (ns : List Nat) :
    roundUp A (ns.foldl (placeNext A) (start, start)).2 =
        roundUp A (ns.foldl (placeNext A) (start, start)).1 ∧
      (A ∣ (ns.foldl (placeNext A) (start, start)).2 ↔
        A ∣ (ns.filter fun n => n ≠ 0).getLast?.getD start) := by
  induction ns using reverseRecOn with
  | nil => exact ⟨rfl, Iff.rfl⟩
  | append_singleton ns n ih =>
    obtain ⟨hrd, hdvd⟩ := ih
    rw [foldl_append, foldl_cons, foldl_nil, filter_append]
    by_cases hzero : n = 0
    · have hfil : [n].filter (fun n => n ≠ 0) = [] := by simp [hzero]
      rw [hfil, append_nil, placeNext, if_pos hzero, hzero, add_zero, roundUp_roundUp hA]
      exact ⟨hrd, hdvd⟩
    · have hfil : [n].filter (fun n => n ≠ 0) = [n] := by simp [hzero]
      rw [hfil, getLast?_concat, placeNext, if_neg hzero]
      refine ⟨rfl, ?_⟩
      exact (Nat.dvd_add_iff_right dvd_roundUp).symm

/-- The file is as long as the ToC says, exactly if there is no gap at its end. -/
theorem length_eq_iff (hA : 0 < A) (l : List Image) :
    (if packedSize A l = (extent A l).1 then (extent A l).2 else packedSize A l) = packedSize A l ↔
      Tight A l := by
  rcases eq_nil_or_concat l with rfl | ⟨init, last, rfl⟩
  · refine iff_of_true ?_ (.inl (by simp))
    split
    next h => exact h.symm
    · rfl
  rw [concat_eq_append]
  have hlast : (init ++ [last]).getLast? = some last := getLast?_concat
  have hsz : sizes (init ++ [last]) = sizes init ++ [last.buffer.length] := by
    rw [sizes, map_append]
    rfl
  obtain ⟨hrd, hdvd⟩ :=
    placeNext_foldl_end hA (bufSize (init ++ [last]).length) (sizes init)
  by_cases hemp : last.buffer = []
  · -- Nothing is left to pad.
    have hzero : last.buffer.length = 0 := by rw [hemp]; rfl
    have hsize : lastSize (init ++ [last]) = ((sizes init).filter fun n => n ≠ 0).getLast?.getD
        (bufSize (init ++ [last]).length) := by
      have hfil : [last.buffer.length].filter (fun n => n ≠ 0) = [] := by simp [hzero]
      rw [lastSize, hsz, filter_append, hfil, append_nil]
    rw [packedSize, extent, hsz, foldl_append, foldl_cons, foldl_nil, placeNext,
      if_pos hzero, hzero, add_zero, roundUp_roundUp hA, if_pos rfl, ← hrd, eq_comm,
      roundUp_eq_iff hA, hdvd, ← hsize]
    constructor
    · exact .inr
    · rintro (hno | h)
      · exact absurd hemp (hno last (by rw [hlast]; rfl))
      · exact h
  · have hne : last.buffer.length ≠ 0 := fun h => hemp (length_eq_zero_iff.mp h)
    refine iff_of_true ?_ (.inl fun image himg => ?_)
    · rw [packedSize, extent, hsz, foldl_append, foldl_cons, foldl_nil, placeNext, if_neg hne]
      split
      next h => exact h.symm
      · rfl
    · rw [hlast] at himg
      rwa [Option.mem_some_iff.mp himg] at hemp

end TrustedFirmware.Fip.Fiptool
