import TrustedFirmware.DevkitE7.NorFlash

/-!
# What the flash holds after it has been programmed

The operations of a run are written down in closed form: the erases start at the destination and are
a sector apart, the pages start there as well and are 256 bytes apart. A page program wraps around
inside of its page, and a frame has two bytes, so that the copy is right only for some destinations
and lengths.
-/

namespace TrustedFirmware.DevkitE7.NorFlash

open Lib.NorCells List BitVec Function

/-! ### The operations in closed form -/

theorem eraseOps_eq (flashDest : Word) : ∀ (left : Nat) (i : Word),
    eraseOps flashDest i left = (range left).map fun k =>
      .erase (flashDest + (i + BitVec.ofNat 32 k) * 0x10000)
  | 0, _ => rfl
  | left + 1, i => by
    rw [eraseOps, eraseOps_eq flashDest left (i + 1), range_succ_eq_map, map_cons,
      List.map_map]
    refine congrArg₂ List.cons ?_ (List.map_congr_left fun k _ => ?_)
    · simp
    · have hone : (1 : Word).toNat = 1 := rfl
      have hnext : i + 1 + BitVec.ofNat 32 k = i + BitVec.ofNat 32 (k + 1) := by
        apply eq_of_toNat_eq
        simp only [toNat_add, toNat_ofNat]
        omega
      simp only [comp_apply, hnext, Nat.succ_eq_add_one]

/-- The page program number `k` of a run. -/
def pageOp (mem : Word → Byte) (flashDest src : Word) (len k : Nat) : FlashOp :=
  .program (flashDest + BitVec.ofNat 32 (256 * k))
    (pageData mem (src + BitVec.ofNat 32 (256 * k)) (min 256 (len - 256 * k)))

theorem programOps_zero (mem : Word → Byte) (fuel : Nat) (flashDest src : Word) :
    programOps mem fuel flashDest src 0 = [] := by
  cases fuel <;> rfl

theorem programOps_eq (mem : Word → Byte) : ∀ (fuel : Nat) (flashDest src remaining : Word),
    remaining.toNat ≤ fuel →
    programOps mem fuel flashDest src remaining = (range ((remaining.toNat + 255) / 256)).map
        (pageOp mem flashDest src remaining.toNat)
  | 0, flashDest, src, remaining, hfuel => by
    rw [show remaining.toNat = 0 by omega]
    rfl
  | fuel + 1, flashDest, src, remaining, hfuel => by
    have hpage : ospiPageSize = 256 := rfl
    have h256 : (256 : Word).toNat = 256 := rfl
    rw [programOps]
    by_cases hzero : remaining = 0
    · rw [if_pos hzero, hzero]
      rfl
    have hpos : 0 < remaining.toNat :=
      Nat.pos_of_ne_zero fun h => hzero (eq_of_toNat_eq h)
    rw [if_neg hzero]
    by_cases hbig : remaining.toNat > ospiPageSize
    · have hrest : (remaining - 256).toNat = remaining.toNat - 256 := by
        rw [toNat_sub, h256]
        omega
      simp only [hbig, if_true]
      rw [programOps_eq mem fuel _ _ _ (by omega), hrest,
        show (remaining.toNat + 255) / 256 = (remaining.toNat - 256 + 255) / 256 + 1 by omega,
        range_succ_eq_map, map_cons, map_map]
      refine congrArg₂ List.cons ?_ (map_congr_left fun k _ => ?_)
      · simp [pageOp, show min 256 remaining.toNat = 256 by omega]
      · have hshf : ∀ x : Word,
            x + 256 + BitVec.ofNat 32 (256 * k) = x + BitVec.ofNat 32 (256 * (k + 1)) := by
          intro x
          apply eq_of_toNat_eq
          simp only [toNat_add, toNat_ofNat]
          omega
        have hlen : remaining.toNat - 256 - 256 * k = remaining.toNat - 256 * (k + 1) := by omega
        simp only [pageOp, comp_apply, hshf, hlen, Nat.succ_eq_add_one]
    · simp only [hbig, if_false]
      have hself : remaining - remaining = 0 := BitVec.sub_self remaining
      rw [hself, programOps_zero, show (remaining.toNat + 255) / 256 = 1 by omega]
      simp [pageOp, show min 256 remaining.toNat = remaining.toNat by omega]

theorem getElem?_pageData (mem : Word → Byte) (src : Word) (len i : Nat) :
    (pageData mem src len)[i]? =
      if i < 2 * ((len + 1) / 2) then
        some (if i < len then mem (src + BitVec.ofNat 32 i) else 0)
      else none := by
  by_cases hi : i < 2 * ((len + 1) / 2)
  · rw [pageData, getElem?_map, getElem?_range hi, if_pos hi]
    rfl
  · rw [pageData, if_neg hi, List.getElem?_eq_none]
    simpa using hi

/-! ### Requests -/

/-- A request: the magic word is set, and the destination is in the window for execution in place,
which starts at 0xC0000000 and has at most 1 GiB. -/
structure OspiProgHdr.Requests (hdr : OspiProgHdr) : Prop where
  magic : hdr.magic = ospiProgMagic
  dest : 0xC0000000 ≤ hdr.destAddr.toNat
  length_pos : 0 < hdr.length.toNat
  fits : hdr.destAddr.toNat + hdr.length.toNat ≤ 2 ^ 32

variable {hdr : OspiProgHdr} {mem : Word → Byte}

theorem OspiProgHdr.Requests.flashDest_lt (h : hdr.Requests) :
    hdr.flashDest.toNat + hdr.length.toNat ≤ 2 ^ 30 := by
  have hbase : (0xC0000000 : Word).toNat = 0xC0000000 := rfl
  obtain ⟨-, hdest, -, hfits⟩ := h
  rw [OspiProgHdr.flashDest, toNat_sub, hbase]
  omega

theorem OspiProgHdr.Requests.toNat_sectors (h : hdr.Requests) :
    hdr.sectors.toNat = (hdr.length.toNat + 65535) / 65536 := by
  have hle := h.flashDest_lt
  have hsec : (0x10000 : Word).toNat = 65536 := rfl
  have hone : (1 : Word).toNat = 1 := rfl
  rw [OspiProgHdr.sectors, toNat_udiv, toNat_sub, toNat_add, hsec, hone]
  omega

theorem OspiProgHdr.Requests.toNat_byte (h : hdr.Requests) {j : Nat} (hj : j ≤ hdr.length.toNat) :
    (hdr.flashDest + BitVec.ofNat 32 j).toNat = hdr.flashDest.toNat + j := by
  have hle := h.flashDest_lt
  rw [toNat_add, toNat_ofNat]
  omega

/-! ### What the operations do to a cell -/

/-- The sectors that are erased are those from the sector of the destination on. -/
abbrev OspiProgHdr.Erases (hdr : OspiProgHdr) (a : Nat) : Prop :=
  hdr.flashDest.toNat / 65536 ≤ a / 65536 ∧
    a / 65536 < hdr.flashDest.toNat / 65536 + (hdr.length.toNat + 65535) / 65536

theorem cell_erases (h : hdr.Requests) (a : Word) (b : Byte) :
    cell (· &&& ·) 0xFF ((eraseOps hdr.flashDest 0 hdr.sectors.toNat).map (·.act a)) b =
      if hdr.Erases a.toNat then 0xFF else b := by
  have hle := h.flashDest_lt
  have hsize : ospiSectorSize = 65536 := rfl
  rw [eraseOps_eq, h.toNat_sectors, map_map]
  -- The erase number `k` acts on the `k`-th sector from there.
  have hact : ∀ k < (hdr.length.toNat + 65535) / 65536,
      (FlashOp.erase (hdr.flashDest + (0 + BitVec.ofNat 32 k) * 0x10000)).act a =
        if a.toNat / 65536 = hdr.flashDest.toNat / 65536 + k then .erase else .keep := by
    intro k hk
    have haddr : (hdr.flashDest + (0 + BitVec.ofNat 32 k) * 0x10000).toNat =
        hdr.flashDest.toNat + k * 65536 := by
      have hsec : (0x10000 : Word).toNat = 65536 := rfl
      have hzero : (0 : Word).toNat = 0 := rfl
      rw [toNat_add, toNat_mul, toNat_add, toNat_ofNat, hsec, hzero,
        Nat.mod_eq_of_lt (show k < 2 ^ 32 by omega)]
      omega
    rw [FlashOp.act, haddr, hsize, show (hdr.flashDest.toNat + k * 65536) / 65536 =
      hdr.flashDest.toNat / 65536 + k by omega]
  have hera : ∀ x ∈ (range ((hdr.length.toNat + 65535) / 65536)).map
      ((fun op => FlashOp.act op a) ∘ fun k =>
        FlashOp.erase (hdr.flashDest + (0 + BitVec.ofNat 32 k) * 0x10000)), x.Erases := by
    intro x hx
    obtain ⟨k, -, rfl⟩ := mem_map.mp hx
    rw [comp_apply, FlashOp.act]
    split
    · exact .inr rfl
    · exact .inl rfl
  split_ifs with hin
  · refine cell_erased hera (mem_map.mpr
      ⟨a.toNat / 65536 - hdr.flashDest.toNat / 65536, mem_range.mpr (by omega), ?_⟩) b
    rw [comp_apply, hact _ (by omega), if_pos (by omega)]
  · refine cell_kept hera (fun hmem => ?_) b
    obtain ⟨k, hk, hek⟩ := mem_map.mp hmem
    have hlt := mem_range.mp hk
    rw [comp_apply, hact k hlt] at hek
    by_cases heq : a.toNat / 65536 = hdr.flashDest.toNat / 65536 + k
    · omega
    · simp [heq] at hek

/-- The byte that the page programs have for a cell: `k` is the number of the page program, and `i`
the place in its data. -/
def byteFor (hdr : OspiProgHdr) (mem : Word → Byte) (k i : Nat) : Act Byte :=
  let len := min 256 (hdr.length.toNat - 256 * k)
  if i < len then .program (mem (hdr.srcAddr + BitVec.ofNat 32 (256 * k + i)))
  else if i < 2 * ((len + 1) / 2) then .program 0
  else .keep

/-- A page is programmed by one page program at most. -/
theorem cell_programs (h : hdr.Requests) (a : Word) (b : Byte) :
    cell (· &&& ·) 0xFF ((programOps mem hdr.length.toNat hdr.flashDest hdr.srcAddr
        hdr.length).map (·.act a)) b =
      if hdr.flashDest.toNat / 256 ≤ a.toNat / 256 ∧
        a.toNat / 256 < hdr.flashDest.toNat / 256 + (hdr.length.toNat + 255) / 256
      then (byteFor hdr mem (a.toNat / 256 - hdr.flashDest.toNat / 256)
        ((a.toNat + 256 - hdr.flashDest.toNat % 256) % 256)).apply (· &&& ·) 0xFF b
      else b := by
  have hsize : ospiPageSize = 256 := rfl
  rw [programOps_eq _ _ _ _ _ le_rfl, map_map]
  have hact : ∀ k < (hdr.length.toNat + 255) / 256,
      (pageOp mem hdr.flashDest hdr.srcAddr hdr.length.toNat k).act a =
        if a.toNat / 256 = hdr.flashDest.toNat / 256 + k then
          byteFor hdr mem k ((a.toNat + 256 - hdr.flashDest.toNat % 256) % 256)
        else .keep := by
    intro k hk
    have haddr : (hdr.flashDest + BitVec.ofNat 32 (256 * k)).toNat =
        hdr.flashDest.toNat + 256 * k := h.toNat_byte (by omega)
    have hsrc : ∀ i, hdr.srcAddr + BitVec.ofNat 32 (256 * k) + BitVec.ofNat 32 i =
        hdr.srcAddr + BitVec.ofNat 32 (256 * k + i) := by
      intro i
      apply eq_of_toNat_eq
      simp only [toNat_add, toNat_ofNat]
      omega
    simp only [pageOp, FlashOp.act, haddr, hsize, byteFor]
    rw [show (hdr.flashDest.toNat + 256 * k) / 256 = hdr.flashDest.toNat / 256 + k by omega,
      show (hdr.flashDest.toNat + 256 * k) % 256 = hdr.flashDest.toNat % 256 by omega]
    rw [getElem?_pageData, hsrc]
    generalize (a.toNat + 256 - hdr.flashDest.toNat % 256) % 256 = i
    generalize min 256 (hdr.length.toNat - 256 * k) = len
    by_cases hi : i < len
    · rw [if_pos (show i < 2 * ((len + 1) / 2) by omega), if_pos hi, if_pos hi]
    · simp only [if_neg hi]
      by_cases hpad : i < 2 * ((len + 1) / 2)
      · simp [if_pos hpad]
      · simp [if_neg hpad]
  split_ifs with hin
  · rw [cell_only (k := a.toNat / 256 - hdr.flashDest.toNat / 256)]
    · rw [comp_apply, hact _ (by omega), if_pos (by omega)]
    · intro k hk hne
      rw [comp_apply, hact k hk, if_neg (by omega)]
    · omega
  · refine cell_keep (fun x hx => ?_) b
    obtain ⟨k, hk, rfl⟩ := mem_map.mp hx
    have hlt := mem_range.mp hk
    rw [comp_apply, hact k hlt, if_neg (by omega)]

theorem applyAll_operations (h : hdr.Requests) (flash : Content) (a : Word) :
    applyAll (hdr.operations mem) flash a =
      if hdr.flashDest.toNat / 256 ≤ a.toNat / 256 ∧
        a.toNat / 256 < hdr.flashDest.toNat / 256 + (hdr.length.toNat + 255) / 256
      then (byteFor hdr mem (a.toNat / 256 - hdr.flashDest.toNat / 256)
        ((a.toNat + 256 - hdr.flashDest.toNat % 256) % 256)).apply (· &&& ·) 0xFF
          (if hdr.Erases a.toNat then 0xFF else flash a)
      else if hdr.Erases a.toNat then 0xFF else flash a := by
  rw [applyAll, OspiProgHdr.operations, map_append, cell_append, cell_erases h, cell_programs h]

/-! ### What has to hold of the flash -/

/-- The sector of the address has a byte of the destination. -/
def OspiProgHdr.Touches (hdr : OspiProgHdr) (a : Word) : Prop :=
  ∃ j < hdr.length.toNat, a.toNat / 65536 = (hdr.flashDest.toNat + j) / 65536

/-- The copy is right. -/
structure Programmed (hdr : OspiProgHdr) (mem : Word → Byte) (flash flash' : Content) : Prop where
  /-- The destination has the bytes of the source. -/
  content : ∀ j < hdr.length.toNat,
    flash' (hdr.flashDest + BitVec.ofNat 32 j) = mem (hdr.srcAddr + BitVec.ofNat 32 j)
  /-- The other sectors are as before. -/
  outside : ∀ a, ¬ hdr.Touches a → flash' a = flash a
  /-- Nothing is programmed behind the destination. -/
  blank : ∀ a, hdr.Touches a → hdr.flashDest.toNat + hdr.length.toNat ≤ a.toNat → flash' a = 0xFF

/-- Where the copy is right: the destination starts at a page, or it does not go beyond the page
that it starts in; the number of bytes is even, or the destination is the rest of a page; and it
touches no more sectors than an aligned destination of this length. -/
structure OspiProgHdr.Placed (hdr : OspiProgHdr) : Prop where
  page : hdr.flashDest.toNat % 256 = 0 ∨ hdr.flashDest.toNat % 256 + hdr.length.toNat ≤ 256
  even : hdr.length.toNat % 2 = 0 ∨ hdr.flashDest.toNat % 256 + hdr.length.toNat = 256
  sector : hdr.flashDest.toNat % 65536 + hdr.length.toNat ≤
    65536 * ((hdr.length.toNat + 65535) / 65536)

section

variable (h : hdr.Requests) (hp : hdr.Placed) (flash : Content)

include h hp

theorem placed_content {j : Nat} (hj : j < hdr.length.toNat) :
    applyAll (hdr.operations mem) flash (hdr.flashDest + BitVec.ofNat 32 j) =
      mem (hdr.srcAddr + BitVec.ofNat 32 j) := by
  obtain ⟨hpage, -, hsec⟩ := hp
  rw [applyAll_operations h, h.toNat_byte hj.le, if_pos (by omega), if_pos (by omega), byteFor]
  have hpl : 256 * ((hdr.flashDest.toNat + j) / 256 - hdr.flashDest.toNat / 256) +
      (hdr.flashDest.toNat + j + 256 - hdr.flashDest.toNat % 256) % 256 = j := by
    rcases hpage with hpage | hpage <;> omega
  rw [if_pos (by omega), hpl]
  exact allOnes_and

theorem placed_blank {a : Word} (ha : hdr.Touches a)
    (hend : hdr.flashDest.toNat + hdr.length.toNat ≤ a.toNat) :
    applyAll (hdr.operations mem) flash a = 0xFF := by
  obtain ⟨hpage, heven, hsec⟩ := hp
  obtain ⟨j, hj, hja⟩ := ha
  have hera : hdr.Erases a.toNat := by omega
  rw [applyAll_operations h, if_pos hera]
  split
  next hin =>
    -- The cell is in the last page, behind its data.
    rw [byteFor, if_neg, if_neg]
    · rfl
    · rcases hpage with hpage | hpage <;> omega
    · rcases hpage with hpage | hpage <;> omega
  · rfl

end

theorem outside_kept (h : hdr.Requests) (flash : Content) {a : Word} (ha : ¬ hdr.Touches a) :
    applyAll (hdr.operations mem) flash a = flash a := by
  rw [applyAll_operations h, if_neg, if_neg]
  · intro hin
    exact ha ⟨min (65536 * (a.toNat / 65536 - hdr.flashDest.toNat / 65536)) (hdr.length.toNat - 1),
      by omega, by omega⟩
  · intro hin
    exact ha ⟨256 * (a.toNat / 256 - hdr.flashDest.toNat / 256), by omega, by omega⟩

theorem OspiProgHdr.Placed.programmed (hp : hdr.Placed) (h : hdr.Requests) (flash : Content) :
    Programmed hdr mem flash (applyAll (hdr.operations mem) flash) where
  content _ hj := placed_content h hp flash hj
  outside _ ha := outside_kept h flash ha
  blank _ ha hend := placed_blank h hp flash ha hend

/-! ### Where the copy is wrong -/

theorem byteFor_apply_zero (hdr : OspiProgHdr) (mem : Word → Byte) (k i : Nat) :
    (byteFor hdr mem k i).apply (· &&& ·) 0xFF 0 = 0 := by
  rw [byteFor]
  split
  · exact zero_and
  · split
    · exact zero_and
    · rfl

section

variable (h : hdr.Requests)
  (hall : ∀ mem flash, Programmed hdr mem flash (applyAll (hdr.operations mem) flash))
include h hall

/-- A sector of the destination that is not erased shows through. -/
theorem sector_of_programmed : hdr.flashDest.toNat % 65536 + hdr.length.toNat ≤
      65536 * ((hdr.length.toNat + 65535) / 65536) := by
  by_contra hsec
  have hpos := h.length_pos
  have hlast := (hall (fun _ => 0xFF) (fun _ => 0)).content (hdr.length.toNat - 1) (by omega)
  rw [applyAll_operations h, h.toNat_byte (by omega)] at hlast
  rw [if_neg (show ¬ hdr.Erases (hdr.flashDest.toNat + (hdr.length.toNat - 1)) by omega)] at hlast
  rw [byteFor_apply_zero, ite_self] at hlast
  cases hlast

/-- Data that wraps around does not reach the next page. -/
theorem page_of_programmed :
    hdr.flashDest.toNat % 256 = 0 ∨ hdr.flashDest.toNat % 256 + hdr.length.toNat ≤ 256 := by
  by_contra hpage
  obtain ⟨j, hj⟩ : ∃ j, j = 256 - hdr.flashDest.toNat % 256 := ⟨_, rfl⟩
  -- Two sources that differ in the byte for the start of the second page only.
  let zeroAt : Word → Byte := fun x => if x = hdr.srcAddr + BitVec.ofNat 32 j then 0 else 0xFF
  have hones := (hall (fun _ => 0xFF) (fun _ => 0xFF)).content j (by omega)
  have hzero := (hall zeroAt (fun _ => 0xFF)).content j (by omega)
  have hoth : zeroAt (hdr.srcAddr + BitVec.ofNat 32 (256 * 1 + j)) = 0xFF := by
    refine if_neg fun heq => ?_
    have hnat := congrArg BitVec.toNat heq
    simp only [toNat_add, toNat_ofNat] at hnat
    omega
  have hbyte : byteFor hdr zeroAt 1 j = byteFor hdr (fun _ => 0xFF) 1 j := by
    simp [byteFor, hoth]
  have hsnd : (hdr.flashDest.toNat + j) / 256 - hdr.flashDest.toNat / 256 = 1 := by omega
  have hpl : (hdr.flashDest.toNat + j + 256 - hdr.flashDest.toNat % 256) % 256 = j := by omega
  rw [applyAll_operations h, h.toNat_byte (by omega), hsnd, hpl] at hones hzero
  rw [hbyte, hones] at hzero
  simp only [zeroAt, if_true] at hzero
  cases hzero

/-- The zero after an odd number of bytes is programmed as well. -/
theorem even_of_programmed :
    hdr.length.toNat % 2 = 0 ∨ hdr.flashDest.toNat % 256 + hdr.length.toNat = 256 := by
  by_contra heven
  have hpage := page_of_programmed h hall
  have hbeh : (hdr.flashDest + BitVec.ofNat 32 hdr.length.toNat).toNat =
      hdr.flashDest.toNat + hdr.length.toNat := h.toNat_byte le_rfl
  have hbla := (hall (fun _ => 0xFF) (fun _ => 0xFF)).blank
    (hdr.flashDest + BitVec.ofNat 32 hdr.length.toNat)
    ⟨hdr.length.toNat - 1, by omega, by rw [hbeh]; rcases hpage with hpage | hpage <;> omega⟩
    (by rw [hbeh])
  rw [applyAll_operations h, hbeh, if_pos (by rcases hpage with hpage | hpage <;> omega),
    byteFor, if_neg (by rcases hpage with hpage | hpage <;> omega),
    if_pos (by rcases hpage with hpage | hpage <;> omega)] at hbla
  cases hbla.symm.trans and_zero

theorem placed_of_programmed : hdr.Placed :=
  ⟨page_of_programmed h hall, even_of_programmed h hall, sector_of_programmed h hall⟩

end

/-! ### Runs -/

/-- The flash is ready at every poll, and power stays. -/
def readyEnv : Env := ⟨fun _ => 0, none⟩

theorem FlashOp.timeout_pos : ∀ op : FlashOp, 0 < op.timeout
  | .erase _ => by simp [timeout, eraseTimeout]
  | .program _ _ => by simp [timeout, programTimeout]

theorem pollsAnswered_ready : ∀ (ops : List FlashOp) (polls : Nat),
    (pollsAnswered readyEnv.statusReg polls ops).isSome = true
  | [], _ => rfl
  | op :: ops, polls => by
    obtain ⟨timeout, htim⟩ := Nat.exists_eq_succ_of_ne_zero op.timeout_pos.ne'
    have hrdy : pollsUntilReady readyEnv.statusReg polls op.timeout = some (polls + 1) := by
      rw [htim]
      simp [pollsUntilReady, readyEnv]
    rw [pollsAnswered, hrdy]
    exact pollsAnswered_ready ops (polls + 1)

/-- A run that clears the magic word has done all of the operations. -/
theorem performs_of_cleared {env : Env} {b b' : Board} {rc : Int}
    (hmag : b.hdr.magic = ospiProgMagic)
    (hrun : ospiProgramFromMram env mem b = .ok (b', rc)) (hclr : b'.hdr.magic = 0) :
    Performs b.ospi b'.ospi (b.hdr.operations mem) := by
  have hends := hrun ▸ ospiProgramFromMram_ends env mem b
  cases hends with
  | notRequested hmagic' => exact absurd hmag hmagic'
  | complete _ _ h => exact h
  | timedOut _ hhdr =>
    rw [hhdr, hmag] at hclr
    cases hclr

/-- A run clears the magic word where the flash is always ready. -/
theorem readyEnv_clears {b : Board} (hmag : b.hdr.magic = ospiProgMagic) :
    ∃ b' : Board, ospiProgramFromMram readyEnv mem b = .ok (b', 1) ∧ b'.hdr.magic = 0 := by
  have hends := ospiProgramFromMram_ends readyEnv mem b
  generalize ospiProgramFromMram readyEnv mem b = r at hends ⊢
  cases hends with
  | lost _ _ hloss => simp [readyEnv] at hloss
  | notRequested hmagic' => exact absurd hmag hmagic'
  | complete _ hhdr => exact ⟨_, rfl, by rw [hhdr]⟩
  | timedOut _ _ _ hpol =>
    have hrdy := pollsAnswered_ready (b.hdr.operations mem) b.ospi.polls
    rw [hpol] at hrdy
    cases hrdy

/-- The flash before a run, with a header. -/
def staged (hdr : OspiProgHdr) (flash : Content) : Board :=
  { hdr, ospi := ⟨flash, false, .bits0, [], 0, [], 0⟩ }

/-- **The copy is right** for every source and every flash, whenever the code has cleared the magic
word, exactly for the requests that are placed so. -/
theorem flash_programmed_iff (h : hdr.Requests) :
    (∀ (env : Env) (mem : Word → Byte) (b b' : Board) (rc : Int), b.hdr = hdr →
      ospiProgramFromMram env mem b = .ok (b', rc) → b'.hdr.magic = 0 →
      Programmed hdr mem b.ospi.flash b'.ospi.flash) ↔ hdr.Placed := by
  constructor
  · intro hall
    refine placed_of_programmed h fun mem flash => ?_
    obtain ⟨b', hrun, hclr⟩ : ∃ b' : Board,
        ospiProgramFromMram readyEnv mem (staged hdr flash) = .ok (b', 1) ∧ b'.hdr.magic = 0 :=
      readyEnv_clears h.magic
    have hprog := hall readyEnv mem (staged hdr flash) b' 1 rfl hrun hclr
    rwa [(performs_of_cleared h.magic hrun hclr).flash] at hprog
  · rintro hp env mem b b' rc rfl hrun hclr
    rw [(performs_of_cleared h.magic hrun hclr).flash]
    exact hp.programmed h b.ospi.flash

/-- Two pages at the start of a sector. -/
def twoPages : OspiProgHdr := ⟨ospiProgMagic, 0xC0010000, 0x200, 0x80010000⟩

theorem flash_programmed_two_pages : ∃ b', ospiProgramFromMram readyEnv (fun a => a.setWidth 8)
      (staged twoPages fun _ => 0) = .ok (b', 1) ∧
    Programmed twoPages (fun a => a.setWidth 8) (fun _ => 0) b'.ospi.flash := by
  have h : twoPages.Requests := ⟨rfl, by decide, by decide, by decide⟩
  have hp : twoPages.Placed := ⟨by decide, by decide, by decide⟩
  obtain ⟨b', hrun, hclr⟩ : ∃ b' : Board,
      ospiProgramFromMram readyEnv (fun a => a.setWidth 8) (staged twoPages fun _ => 0) =
        .ok (b', 1) ∧ b'.hdr.magic = 0 := readyEnv_clears rfl
  exact ⟨b', hrun, (flash_programmed_iff h).mpr hp readyEnv _ _ b' 1 rfl hrun hclr⟩

/-- 64 KiB from the middle of a sector on. -/
def midSector : OspiProgHdr := ⟨ospiProgMagic, 0xC0008000, 0x10000, 0x80010000⟩

/-- Only one of the two sectors is erased, so that the second half of the copy is combined with what
the flash had before. -/
theorem second_sector_not_erased : ∃ b', ospiProgramFromMram readyEnv (fun _ => 0xFF)
      (staged midSector fun _ => 0) = .ok (b', 1) ∧ b'.hdr.magic = 0 ∧
    b'.ospi.flash (midSector.flashDest + BitVec.ofNat 32 0xFFFF) = 0 ∧
    ¬ Programmed midSector (fun _ => 0xFF) (fun _ => 0) b'.ospi.flash := by
  have h : midSector.Requests := ⟨rfl, by decide, by decide, by decide⟩
  obtain ⟨b', hrun, hclr⟩ : ∃ b' : Board, ospiProgramFromMram readyEnv (fun _ => 0xFF)
      (staged midSector fun _ => 0) = .ok (b', 1) ∧ b'.hdr.magic = 0 := readyEnv_clears rfl
  have hzero : b'.ospi.flash (midSector.flashDest + BitVec.ofNat 32 0xFFFF) = 0 := by
    rw [(performs_of_cleared rfl hrun hclr).flash]
    refine (applyAll_operations h _ _).trans ?_
    decide
  refine ⟨b', hrun, hclr, hzero, fun hprog => ?_⟩
  have hlast := hprog.content 0xFFFF (by decide)
  rw [hzero] at hlast
  cases hlast

end TrustedFirmware.DevkitE7.NorFlash
