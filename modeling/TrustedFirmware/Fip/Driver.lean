import TrustedFirmware.Fip.Format

/-!
# The package driver (`io_fip.c`) over a range of memory (`io_memmap.c`)

The build is one without assertions. The platform says where the range is; its content is whatever
has been put there, and none of it has been authenticated when the code reads the ToC.

Without its assertions, the memory driver moves to any position and reads any length. So **the code
keeps to the range exactly where the content of the ToC makes it**: a walk ends inside if an entry
inside has the UUID that is looked for or the null UUID, and a payload is read inside if its offset
and size say so.
-/

namespace TrustedFirmware.Fip.Driver

open Lib List BitVec

/-! ### The state -/

/-- What the platform sets up; `w` is the width of a `size_t` and of an address. -/
structure Platform (w : Nat) where
  /-- The `io_block_spec_t` of the package. -/
  offset : BitVec w
  length : BitVec w
  /-- `MAX_IO_HANDLES`. -/
  maxIoHandles : Nat
  width : 32 ≤ w
  width_le : w ≤ 64
  fits : offset.toNat + length.toNat ≤ 2 ^ w

/-- `file_state_t` of `io_memmap.c`. -/
structure MemmapFile (w : Nat) where
  inUse : Bool
  base : BitVec w
  filePos : BitVec w
  size : BitVec w

/-- `file_state_t` of `io_fip.c`. -/
structure FipFile where
  filePos : BitVec 32
  entry : TocEntry

/-- Memory and the variables of the drivers. `reads` has the bytes that have been read, as a place
and a length, the last ones first. -/
structure State (w : Nat) where
  mem : BitVec w → UInt8
  memmap : MemmapFile w
  currentFile : FipFile
  entityCount : Nat
  reads : List (BitVec w × Nat)

inductive Errno
  | enomem
  | enoent
  deriving DecidableEq

variable {w : Nat}

/-! ### The memory driver, behind the I/O layer -/

/-- The bytes at `place`. -/
def bytesAt (mem : BitVec w → UInt8) (place : BitVec w) (n : Nat) : List UInt8 :=
  (range n).map fun i => mem (place + BitVec.ofNat w i)

/-- `io_open` with `memmap_block_open`. An entity that has been allocated is released if the driver
fails. -/
def ioOpen (p : Platform w) (s : State w) : Except Errno (State w) :=
  if s.entityCount < p.maxIoHandles then
    if s.memmap.inUse = false then
      .ok { s with
        memmap := ⟨true, p.offset, 0, p.length⟩
        entityCount := s.entityCount + 1 }
    else .error .enomem
  else .error .enomem

/-- `io_seek` with `memmap_block_seek`, from the start of the file. -/
def ioSeek (s : State w) (offset : BitVec w) : Except Errno (State w) :=
  .ok { s with memmap := { s.memmap with filePos := offset } }

/-- `io_read` with `memmap_block_read`. -/
def ioRead (s : State w) (length : BitVec w) : Except Errno (State w × List UInt8 × BitVec w) :=
  let place := s.memmap.base + s.memmap.filePos
  .ok ({ s with
    memmap := { s.memmap with filePos := s.memmap.filePos + length }
    reads := (place, length.toNat) :: s.reads }, bytesAt s.mem place length.toNat, length)

/-- `io_close` with `memmap_block_close`. -/
def ioClose (s : State w) : State w :=
  { s with memmap := ⟨false, 0, 0, 0⟩, entityCount := s.entityCount - 1 }

/-! ### The package driver -/

/-- The loop of `fip_file_open`: whether the file has been found. Nothing in the code bounds the
number of entries that it reads; `none` is a loop that has not ended yet. -/
def fipFileOpenLoop (uuid : Uuid) : Nat → State w → Option (State w × Except Errno Bool)
  | 0, _ => none
  | fuel + 1, s =>
    match ioRead s (BitVec.ofNat w sizeofTocEntry) with
    | .error e => some (s, .error e)
    | .ok (s, bytes, _) =>
      let s := { s with currentFile := { s.currentFile with entry := .ofBytes bytes } }
      if s.currentFile.entry.uuid = uuid then some (s, .ok true)
      else if s.currentFile.entry.uuid ≠ uuidNull then fipFileOpenLoop uuid fuel s
      else some (s, .ok false)

/-- `fip_file_open`. -/
def fipFileOpen (p : Platform w) (fuel : Nat) (s : State w) (uuid : Uuid) :
    Option (State w × Except Errno Unit) :=
  if s.currentFile.entry.offsetAddress ≠ 0 then some (s, .error .enomem)
  else
    match ioOpen p s with
    | .error _ => some (s, .error .enoent)
    | .ok s =>
      match ioSeek s (BitVec.ofNat w sizeofTocHeader) with
      | .error _ => some (ioClose s, .error .enoent)
      | .ok s =>
        match fipFileOpenLoop uuid fuel s with
        | none => none
        | some (s, .error e) => some (ioClose s, .error e)
        | some (s, .ok true) =>
          some (ioClose { s with currentFile := { s.currentFile with filePos := 0 } }, .ok ())
        | some (s, .ok false) =>
          let entry := { s.currentFile.entry with offsetAddress := 0 }
          some (ioClose { s with currentFile := { s.currentFile with entry } }, .error .enoent)

/-- `fip_file_read`, with the bytes that are read. -/
def fipFileRead (p : Platform w) (s : State w) (length : BitVec w) :
    State w × Except Errno (List UInt8 × BitVec w) :=
  match ioOpen p s with
  | .error _ => (s, .error .enoent)
  | .ok s =>
    let fp := s.currentFile
    let fileOffset := (fp.entry.offsetAddress + fp.filePos.setWidth 64).setWidth w
    match ioSeek s fileOffset with
    | .error _ => (ioClose s, .error .enoent)
    | .ok s =>
      match ioRead s length with
      | .error _ => (ioClose s, .error .enoent)
      | .ok (s, bytes, bytesRead) =>
        let filePos := s.currentFile.filePos + bytesRead.setWidth 32
        (ioClose { s with currentFile := { s.currentFile with filePos } }, .ok (bytes, bytesRead))

/-! ### What the code has to keep to -/

/-- The address is in the range of the package. -/
def Platform.Contains (p : Platform w) (a : BitVec w) : Prop :=
  p.offset.toNat ≤ a.toNat ∧ a.toNat < p.offset.toNat + p.length.toNat

/-- The bytes are in the range of the package. -/
def Platform.Covers (p : Platform w) (read : BitVec w × Nat) : Prop :=
  ∀ i < read.2, p.Contains (read.1 + BitVec.ofNat w i)

/-- The entry number `k` of the ToC. -/
def entryAt (p : Platform w) (mem : BitVec w → UInt8) (k : Nat) : TocEntry :=
  .ofBytes (bytesAt mem
    (p.offset + BitVec.ofNat w (sizeofTocHeader + sizeofTocEntry * k)) sizeofTocEntry)

/-- The walk ends at this entry. -/
def Stops (uuid : Uuid) (e : TocEntry) : Prop := e.uuid = uuid ∨ e.uuid = uuidNull

/-- The entry is wholly in the range. -/
def Platform.HasEntry (p : Platform w) (k : Nat) : Prop :=
  sizeofTocHeader + sizeofTocEntry * (k + 1) ≤ p.length.toNat

/-- `fip_file_open` returns, it reads in the range only, and it fails if there is no entry in the
range to end at. -/
def OpenRight (p : Platform w) (s : State w) (uuid : Uuid) : Prop :=
  ∃ fuel s' result new, fipFileOpen p fuel s uuid = some (s', result) ∧
    s'.reads = new ++ s.reads ∧ (∀ read ∈ new, p.Covers read) ∧
    ((∀ k, p.HasEntry k → ¬ Stops uuid (entryAt p s.mem k)) → result ≠ .ok ())

/-- Where the range that is read ends, from the start of the package. -/
def rangeEnd (s : State w) (length : BitVec w) : Nat :=
  s.currentFile.entry.offsetAddress.toNat + s.currentFile.filePos.toNat + length.toNat

/-- `fip_file_read` reads in the range only, and it fails if it is asked for something else. -/
def ReadRight (p : Platform w) (s : State w) (length : BitVec w) : Prop :=
  ∃ s' result new, fipFileRead p s length = (s', result) ∧
    s'.reads = new ++ s.reads ∧ (∀ read ∈ new, p.Covers read) ∧
    (p.length.toNat < rangeEnd s length → ∃ e, result = .error e)

/-- The backend can be opened. -/
def CanOpen (p : Platform w) (s : State w) : Prop :=
  s.entityCount < p.maxIoHandles ∧ s.memmap.inUse = false

/-! ### Places in the range -/

section

variable (p : Platform w)

/-- From the start of the package to beyond its end, and around all of memory. -/
theorem Platform.contains_iff {pos : Nat} (hpos : pos < 2 ^ w) :
    p.Contains (p.offset + BitVec.ofNat w pos) ↔ pos < p.length.toNat := by
  have hfits := p.fits
  rw [Contains, toNat_add, toNat_ofNat, Nat.mod_eq_of_lt hpos]
  by_cases hwrap : p.offset.toNat + pos < 2 ^ w
  · rw [Nat.mod_eq_of_lt hwrap]
    omega
  · rw [Nat.mod_eq_sub_mod (not_lt.mp hwrap), Nat.mod_eq_of_lt (by omega)]
    omega

/-- The bytes from a position of the package on. -/
def readAt (pos n : Nat) : BitVec w × Nat := (p.offset + BitVec.ofNat w pos, n)

theorem covers_readAt {pos n : Nat} (h : pos + n ≤ p.length.toNat) : p.Covers (readAt p pos n) := by
  intro i hi
  have hlen := p.length.isLt
  have hpl : (readAt p pos n).1 + BitVec.ofNat w i = p.offset + BitVec.ofNat w (pos + i) := by
    rw [readAt, BitVec.add_assoc, ofNat_add]
  rw [hpl, p.contains_iff (lt_of_lt_of_le (Nat.add_lt_add_left hi _) (h.trans hlen.le))]
  exact lt_of_lt_of_le (Nat.add_lt_add_left hi _) h

theorem le_of_covers_readAt {pos n : Nat} (hn : 0 < n) (hpos : pos ≤ p.length.toNat ∨ pos < 2 ^ 32)
    (h : p.Covers (readAt p pos n)) : pos + n ≤ p.length.toNat := by
  have hwidth : 2 ^ 32 ≤ 2 ^ w := Nat.pow_le_pow_right (by decide) p.width
  by_contra hover
  -- The first byte that is read beyond the end.
  have hbyte := h (max pos p.length.toNat - pos) (show _ < n by omega)
  have hpl : (readAt p pos n).1 + BitVec.ofNat w (max pos p.length.toNat - pos) =
      p.offset + BitVec.ofNat w (max pos p.length.toNat) := by
    rw [readAt, BitVec.add_assoc, ← ofNat_add, Nat.add_sub_cancel' (le_max_left _ _)]
  rw [hpl, p.contains_iff (by omega)] at hbyte
  omega

end

/-! ### The walk -/

/-- The next entry that is read is the entry number `k`. -/
structure At (p : Platform w) (k : Nat) (s : State w) : Prop where
  base : s.memmap.base = p.offset
  filePos : s.memmap.filePos = BitVec.ofNat w (sizeofTocHeader + sizeofTocEntry * k)

/-- The read of the entry number `k`. -/
def entryRead (p : Platform w) (k : Nat) : BitVec w × Nat :=
  readAt p (sizeofTocHeader + sizeofTocEntry * k) sizeofTocEntry

variable {p : Platform w} {uuid : Uuid} {k : Nat} {s : State w}

theorem fipFileOpenLoop_round (uuid : Uuid) (hat : At p k s) : ∃ s₁ : State w, At p (k + 1) s₁ ∧
    s₁.mem = s.mem ∧ s₁.reads = entryRead p k :: s.reads ∧
    ∀ fuel, fipFileOpenLoop uuid (fuel + 1) s =
      if (entryAt p s.mem k).uuid = uuid then some (s₁, .ok true)
      else if (entryAt p s.mem k).uuid ≠ uuidNull then fipFileOpenLoop uuid fuel s₁
      else some (s₁, .ok false) := by
  have hsize : (BitVec.ofNat w sizeofTocEntry).toNat = sizeofTocEntry := by
    have hwid : 2 ^ 32 ≤ 2 ^ w := Nat.pow_le_pow_right (by decide) p.width
    exact Nat.mod_eq_of_lt (lt_of_lt_of_le (by decide) hwid)
  refine ⟨{ s with
    memmap := { s.memmap with filePos := s.memmap.filePos + BitVec.ofNat w sizeofTocEntry }
    currentFile := { s.currentFile with entry := entryAt p s.mem k }
    reads := entryRead p k :: s.reads }, ⟨hat.base, ?_⟩, rfl, rfl, fun fuel => ?_⟩
  · rw [hat.filePos, ← ofNat_add, Nat.mul_add, Nat.mul_one, add_assoc]
  · simp only [fipFileOpenLoop, ioRead, hat.base, hat.filePos, hsize]
    rfl

/-- A walk from the entry number `k` that ends at the first entry that it can end at, number `j`,
with all the entries up to it read. -/
structure WalkEnds (p : Platform w) (uuid : Uuid) (k j : Nat) (s s' : State w) : Prop where
  le : k ≤ j
  stops : Stops uuid (entryAt p s.mem j)
  first : ∀ i, k ≤ i → i < j → ¬ Stops uuid (entryAt p s.mem i)
  reads : s'.reads = ((range' k (j + 1 - k)).map (entryRead p)).reverse ++ s.reads

theorem fipFileOpenLoop_some (fuel k : Nat) {s s' : State w} {result : Except Errno Bool}
    (hat : At p k s) (hloop : fipFileOpenLoop uuid fuel s = some (s', result)) :
    ∃ j, WalkEnds p uuid k j s s' := by
  induction fuel generalizing k s with
  | zero =>
    simp [fipFileOpenLoop] at hloop
  | succ fuel ih =>
    obtain ⟨s₁, hat₁, hmem, hrds, hrd⟩ := fipFileOpenLoop_round uuid hat
    rw [hrd] at hloop
    have hends : ∀ {r}, some (s₁, r) = some (s', result) → Stops uuid (entryAt p s.mem k) →
        ∃ j, WalkEnds p uuid k j s s' := by
      intro r hsome hstp
      cases hsome
      exact ⟨k, le_rfl, hstp, fun i hk hi => absurd hk (not_le.mpr hi), by simp [hrds]⟩
    split at hloop
    · rename_i hfd
      exact hends hloop (.inl hfd)
    rename_i hfd
    by_cases hnull : (entryAt p s.mem k).uuid = uuidNull
    · rw [if_neg (not_not.mpr hnull)] at hloop
      exact hends hloop (.inr hnull)
    rw [if_pos hnull] at hloop
    obtain ⟨j, hle, hstp, hfst, hreads⟩ := ih (k + 1) hat₁ hloop
    rw [hmem] at hstp hfst
    refine ⟨j, Nat.le_of_succ_le hle, hstp, fun i hk hi => ?_, ?_⟩
    · rcases eq_or_lt_of_le hk with rfl | hk
      · exact not_or.mpr ⟨hfd, hnull⟩
      · exact hfst i hk hi
    · rw [hreads, hrds, Nat.add_sub_add_right, Nat.succ_sub (Nat.le_of_succ_le hle), range'_succ]
      simp

theorem fipFileOpenLoop_isSome (j k : Nat) {s : State w} (hat : At p k s)
    (hstp : Stops uuid (entryAt p s.mem (k + j))) : (fipFileOpenLoop uuid (j + 1) s).isSome := by
  induction j generalizing k s with
  | zero =>
    obtain ⟨s₁, -, -, -, hrd⟩ := fipFileOpenLoop_round uuid hat
    rw [hrd]
    rw [add_zero] at hstp
    split
    next hfd => rfl
    next hfd =>
      rw [if_neg (not_not.mpr (hstp.resolve_left hfd))]
      rfl
  | succ j ih =>
    obtain ⟨s₁, hat₁, hmem, -, hrd⟩ := fipFileOpenLoop_round uuid hat
    rw [hrd]
    split
    · rfl
    · split
      · refine ih (k + 1) hat₁ ?_
        rwa [hmem, show k + 1 + j = k + (j + 1) by omega]
      · rfl

/-! ### Opening and reading -/

theorem ioOpen_of_not_canOpen (h : ¬ CanOpen p s) : ∃ e, ioOpen p s = .error e := by
  rw [ioOpen]
  split
  next hcnt =>
    rw [if_neg fun hfree => h ⟨hcnt, hfree⟩]
    exact ⟨_, rfl⟩
  next hcnt => exact ⟨_, rfl⟩

theorem ioOpen_of_canOpen (h : CanOpen p s) : ioOpen p s = .ok { s with
      memmap := ⟨true, p.offset, 0, p.length⟩
      entityCount := s.entityCount + 1 } := by
  rw [ioOpen, if_pos h.1, if_pos h.2]

/-- The walk from the first entry, and what is returned after it. -/
theorem fipFileOpen_walk (uuid : Uuid) (hcl : s.currentFile.entry.offsetAddress = 0)
    (hopen : CanOpen p s) :
    ∃ s₀ : State w, At p 0 s₀ ∧ s₀.mem = s.mem ∧ s₀.reads = s.reads ∧
      ∀ fuel, (fipFileOpenLoop uuid fuel s₀ = none ∧ fipFileOpen p fuel s uuid = none) ∨
        ∃ s₁ found s' result, fipFileOpenLoop uuid fuel s₀ = some (s₁, found) ∧
          fipFileOpen p fuel s uuid = some (s', result) ∧ s'.reads = s₁.reads := by
  refine ⟨{ s with
    memmap := ⟨true, p.offset, BitVec.ofNat w sizeofTocHeader, p.length⟩
    entityCount := s.entityCount + 1 }, ⟨rfl, rfl⟩, rfl, rfl, fun fuel => ?_⟩
  rw [fipFileOpen, if_neg (not_not.mpr hcl), ioOpen_of_canOpen hopen]
  dsimp only [ioSeek]
  generalize fipFileOpenLoop uuid fuel _ = walked
  match walked with
  | none => exact .inl ⟨rfl, rfl⟩
  | some (s₁, .error e) | some (s₁, .ok true) => exact .inr ⟨s₁, _, _, _, rfl, rfl, rfl⟩
  | some (s₁, .ok false) => exact .inr ⟨s₁, _, _, _, rfl, rfl, rfl⟩

theorem hasEntry_of_covers {k : Nat} (h : ∀ i ≤ k, p.Covers (entryRead p i)) : p.HasEntry k := by
  have hlast : sizeofTocHeader + sizeofTocEntry * k ≤ p.length.toNat ∨
      sizeofTocHeader + sizeofTocEntry * k < 2 ^ 32 := by
    cases k with
    | zero => exact .inr (by decide)
    | succ => exact .inl (hasEntry_of_covers fun i hi => h i (Nat.le_succ_of_le hi))
  have hle := le_of_covers_readAt p (by decide) hlast (h k le_rfl)
  exact hle

theorem covers_of_hasEntry {i k : Nat} (hi : i ≤ k) (h : p.HasEntry k) :
    p.Covers (entryRead p i) := by
  refine covers_readAt p (le_trans ?_ h)
  exact Nat.add_le_add_left (Nat.mul_le_mul_left sizeofTocEntry (Nat.succ_le_succ hi)) _

theorem openRight_iff : OpenRight p s uuid ↔ s.currentFile.entry.offsetAddress ≠ 0 ∨ ¬ CanOpen p s ∨
      ∃ k, p.HasEntry k ∧ Stops uuid (entryAt p s.mem k) := by
  by_cases hcl : s.currentFile.entry.offsetAddress = 0
  swap
  · refine iff_of_true ⟨0, s, .error .enomem, [], ?_, rfl, by simp, by simp⟩ (.inl hcl)
    rw [fipFileOpen, if_pos hcl]
  by_cases hopen : CanOpen p s
  swap
  · obtain ⟨e, he⟩ := ioOpen_of_not_canOpen hopen
    refine iff_of_true ⟨0, s, .error .enoent, [], ?_, rfl, by simp, by simp⟩ (.inr (.inl hopen))
    rw [fipFileOpen, if_neg (not_not.mpr hcl), he]
  obtain ⟨s₀, hat, hmem, hrds, hwalk⟩ := fipFileOpen_walk uuid hcl hopen
  constructor
  · rintro ⟨fuel, s', result, new, hcall, hnew, hcov, -⟩
    rcases hwalk fuel with ⟨-, hnone⟩ | ⟨s₁, found, s₂, result₂, hloop, hcall₂, hreads₂⟩
    · rw [hnone] at hcall
      simp at hcall
    rw [hcall₂] at hcall
    cases hcall
    obtain ⟨j, hend⟩ := fipFileOpenLoop_some fuel 0 hat hloop
    rw [hreads₂, hend.reads, hrds] at hnew
    obtain rfl : _ = new := append_cancel_right hnew
    refine .inr (.inr ⟨j, hasEntry_of_covers fun i hi => hcov _ ?_, hmem ▸ hend.stops⟩)
    exact mem_reverse.mpr (mem_map_of_mem (mem_range'_1.mpr (by omega)))
  · rintro (hno | hno | ⟨k, hen, hstp⟩)
    · exact absurd hcl hno
    · exact absurd hopen hno
    have hsome : (fipFileOpenLoop uuid (k + 1) s₀).isSome := by
      refine fipFileOpenLoop_isSome k 0 hat ?_
      rwa [zero_add, hmem]
    rcases hwalk (k + 1) with ⟨hnone, -⟩ | ⟨s₁, found, s', result, hloop, hcall, hreads'⟩
    · rw [hnone] at hsome
      simp at hsome
    obtain ⟨j, hend⟩ := fipFileOpenLoop_some (k + 1) 0 hat hloop
    have hj : j ≤ k := by
      by_contra hlt
      refine hend.first k (Nat.zero_le k) (not_le.mp hlt) ?_
      rwa [hmem]
    refine ⟨k + 1, s', result, _, hcall, by rw [hreads', hend.reads, hrds], ?_, ?_⟩
    · intro read hread
      obtain ⟨i, hi, rfl⟩ := mem_map.mp (mem_reverse.mp hread)
      rw [mem_range'_1] at hi
      exact covers_of_hasEntry (by omega) hen
    · intro hnone
      exact absurd hstp (hnone k hen)

theorem fipFileRead_of_canOpen (hopen : CanOpen p s) (length : BitVec w) : ∃ s' bytes,
    fipFileRead p s length = (s', .ok (bytes, length)) ∧
    s'.reads = (p.offset + (s.currentFile.entry.offsetAddress +
      s.currentFile.filePos.setWidth 64).setWidth w, length.toNat) :: s.reads := by
  rw [fipFileRead, ioOpen_of_canOpen hopen]
  exact ⟨_, _, rfl, rfl⟩

theorem fileOffset_eq {offset : BitVec 64} {filePos : BitVec 32}
    (h : offset.toNat + filePos.toNat ≤ p.length.toNat) :
    (offset + filePos.setWidth 64).setWidth w = BitVec.ofNat w (offset.toNat + filePos.toNat) := by
  have hle : 2 ^ w ≤ 2 ^ 64 := Nat.pow_le_pow_right (by decide) p.width_le
  have hfile : (filePos.setWidth 64).toNat = filePos.toNat :=
    toNat_setWidth_of_le (by decide)
  apply eq_of_toNat_eq
  rw [toNat_setWidth, toNat_add, hfile, toNat_ofNat, Nat.mod_eq_of_lt (a := _ + _) (by omega)]

theorem readRight_iff {length : BitVec w} : ReadRight p s length ↔
    ¬ CanOpen p s ∨ rangeEnd s length ≤ p.length.toNat := by
  by_cases hopen : CanOpen p s
  swap
  · obtain ⟨e, he⟩ := ioOpen_of_not_canOpen hopen
    refine iff_of_true ⟨s, .error .enoent, [], ?_, rfl, by simp, fun _ => ⟨_, rfl⟩⟩ (.inl hopen)
    rw [fipFileRead, he]
  obtain ⟨s₁, bytes, hread, hrds⟩ := fipFileRead_of_canOpen hopen length
  constructor
  · rintro ⟨s', result, new, hcall, -, -, hfai⟩
    refine .inr (not_lt.mp fun hover => ?_)
    obtain ⟨e, rfl⟩ := hfai hover
    rw [hread] at hcall
    simp at hcall
  · intro hcond
    have hins := hcond.resolve_left (not_not.mpr hopen)
    rw [fileOffset_eq (Nat.le_of_add_right_le hins)] at hrds
    refine ⟨s₁, _, [readAt p _ length.toNat], hread, hrds, fun read hmem => ?_, fun hover => ?_⟩
    · rw [mem_singleton.mp hmem]
      exact covers_readAt p hins
    · exact absurd hins (Nat.not_le_of_lt hover)

/-- **The driver keeps to the range of the package** exactly as follows. `fip_file_open` does if a
file is open already, if the backend is busy, or if an entry in the range has the UUID or the null
UUID. `fip_file_read` does if the backend is busy, or if the offset, the file position and the
length stay in the range: no read is refused. -/
theorem fip_keeps_to_range_iff (p : Platform w) (s : State w) (uuid : Uuid) (length : BitVec w) :
    (OpenRight p s uuid ↔ s.currentFile.entry.offsetAddress ≠ 0 ∨ ¬ CanOpen p s ∨
        ∃ k, p.HasEntry k ∧ Stops uuid (entryAt p s.mem k)) ∧
    (ReadRight p s length ↔ ¬ CanOpen p s ∨ rangeEnd s length ≤ p.length.toNat) :=
  ⟨openRight_iff, readRight_iff⟩

/-! ### Two packages -/

/-- A package of `length` bytes at 64 KiB. -/
def packageOf (length : BitVec 64) (h : length.toNat ≤ 2 ^ 32) : Platform 64 where
  offset := 0x10000
  length := length
  maxIoHandles := 2
  width := by decide
  width_le := by decide
  fits := by
    have hoffset : (0x10000 : BitVec 64).toNat = 0x10000 := rfl
    omega

/-- No file is open. -/
def closed (mem : BitVec 64 → UInt8) : State 64 :=
  ⟨mem, ⟨false, 0, 0, 0⟩, ⟨0, ⟨uuidNull, 0, 0, 0⟩⟩, 1, []⟩

def wanted : Uuid := fun _ => 1

/-- A ToC of two entries, the first with the UUID that is looked for. -/
theorem fip_keeps_to_range_found :
    OpenRight (packageOf 96 (by decide)) (closed fun a => if a < 0x10020 then 1 else 0) wanted ∧
    ReadRight (packageOf 96 (by decide)) (closed fun a => if a < 0x10020 then 1 else 0) 96 := by
  have hiff := fip_keeps_to_range_iff (packageOf 96 (by decide))
    (closed fun a => if a < 0x10020 then 1 else 0) wanted 96
  have hen : (packageOf 96 (by decide)).HasEntry 0 := by
    show 56 ≤ (96 : BitVec 64).toNat
    decide
  have hfd : Stops wanted (entryAt (packageOf 96 (by decide))
      (closed fun a => if a < 0x10020 then 1 else 0).mem 0) := .inl (by decide +kernel)
  exact ⟨hiff.1.mpr (.inr (.inr ⟨0, hen, hfd⟩)), hiff.2.mpr (.inr (by decide))⟩

/-- A ToC of one entry and no terminator. -/
def unterminated : State 64 := closed fun a => if a < 0x10038 then 0xFF else 1

/-- The walk goes on behind the package, finds the UUID there and opens a file; and reading this
file succeeds, whatever the offset in its entry. -/
theorem walk_leaves_range : ∃ s' s'' bytes,
    (∀ k, (packageOf 56 (by decide)).HasEntry k →
      ¬ Stops wanted (entryAt (packageOf 56 (by decide)) unterminated.mem k)) ∧
    fipFileOpen (packageOf 56 (by decide)) 2 unterminated wanted = some (s', .ok ()) ∧
    (0x10038, 40) ∈ s'.reads ∧ ¬ (packageOf 56 (by decide)).Covers (0x10038, 40) ∧
    fipFileRead (packageOf 56 (by decide)) s' 8 = (s'', .ok (bytes, 8)) ∧
    (packageOf 56 (by decide)).length.toNat < rangeEnd s' 8 := by
  have hany : (fipFileOpen (packageOf 56 (by decide)) 2 unterminated wanted).any
      (fun r => match r with
        | (s', .ok ()) => decide ((0x10038, 40) ∈ s'.reads ∧ s'.entityCount = 1 ∧
            s'.memmap.inUse = false ∧ (packageOf 56 (by decide)).length.toNat < rangeEnd s' 8)
        | _ => false) = true := by decide +kernel
  obtain ⟨⟨s', r⟩, hopen, hend⟩ := (Option.any_eq_true _ _).mp hany
  cases r with
  | error => simp at hend
  | ok =>
    obtain ⟨hrds, hcnt, hfree, hrg⟩ := of_decide_eq_true hend
    have hcan : CanOpen (packageOf 56 (by decide)) s' := ⟨by rw [hcnt]; decide, hfree⟩
    obtain ⟨s'', bytes, hread, -⟩ := fipFileRead_of_canOpen hcan 8
    refine ⟨s', s'', bytes, fun k hk => ?_, hopen, hrds, fun hcov => ?_, hread, hrg⟩
    · -- Only the first entry is in the package.
      have hzero : k = 0 := by
        rw [Platform.HasEntry, sizeofTocHeader, sizeofTocEntry] at hk
        have hlen : (packageOf 56 (by decide)).length.toNat = 56 := rfl
        omega
      subst hzero
      rw [Stops]
      decide +kernel
    · have hbyte := (hcov 0 (by decide)).2
      revert hbyte
      decide

end TrustedFirmware.Fip.Driver
