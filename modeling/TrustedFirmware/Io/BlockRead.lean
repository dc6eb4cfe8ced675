import TrustedFirmware.Io.Block

/-!
# `block_read` delivers the bytes of the device

Each request gives at least one byte that is needed, so the loop ends; and what it copies is what
the device has at the place that the position in the file stands for.

The place is computed in a `size_t`, so that all this holds only for bytes below 2^w. A region that
goes beyond has its last bytes read from the start of the device.
-/

namespace TrustedFirmware.Io.Block

open List BitVec BlockDevState

variable {w : Nat} {dev : BlockDev w}

/-- The first byte that is read or written. -/
def BlockDevState.start (cur : BlockDevState w) : Nat := cur.base.toNat + cur.filePos.toNat

/-- The request has no other blocks than those that cover a range. -/
def Access.Covers (dev : BlockDev w) (start length : Nat) (a : Access) : Prop :=
  ((start / dev.bs : Nat) : Int) ≤ a.lba ∧
    a.lba * dev.bs + a.size ≤ (((start + length + dev.bs - 1) / dev.bs * dev.bs : Nat) : Int)

/-- What has to hold of `block_read`, however it ends. -/
inductive ReadRight (dev : BlockDev w) (io : IoState w) (buffer : Nat → Byte) (length : BitVec w) :
    Result w → Prop
  | done {io' : IoState w} (new : List Access)
      (hcur : io'.cur = { io.cur with filePos := io.cur.filePos + length })
      (hdevice : io'.device = io.device)
      (hlog : io'.log = new ++ io.log)
      (hcovers : ∀ a ∈ new, a.Covers dev io.cur.start length.toNat) :
      ReadRight dev io buffer length
        (.done io' (memcpy buffer 0 io.device io.cur.start length.toNat) length)
  | eio {io' : IoState w} {buffer' : Nat → Byte} (hdevice : io'.device = io.device) :
      ReadRight dev io buffer length (.eio io' buffer')
  | assertFailed (hlength : length = 0) : ReadRight dev io buffer length .assertFailed

/-! ### The loop -/

/-- How the loop ends that starts at the byte `place` of the device. -/
inductive LoopReads (dev : BlockDev w) (place : Nat) (io : IoState w) (buffer : Nat → Byte)
    (left count : BitVec w) : Result w → Prop
  | done {io' : IoState w} (new : List Access)
      (hcur : io'.cur = { io.cur with filePos := io.cur.filePos + left })
      (hdevice : io'.device = io.device)
      (hlog : io'.log = new ++ io.log)
      (hcovers : ∀ a ∈ new, a.Covers dev place left.toNat) :
      LoopReads dev place io buffer left count
        (.done io' (memcpy buffer count.toNat io.device place left.toNat) (count + left))
  | eio {io' : IoState w} {buffer' : Nat → Byte} (hdevice : io'.device = io.device) :
      LoopReads dev place io buffer left count (.eio io' buffer')

variable {cur : BlockDevState w} {place : Nat} {left count length n : BitVec w} {io : IoState w}
  {buffer : Nat → Byte} {answer : Nat → Nat} {a : Access}

/-- The place on the device wraps around at 2^w. -/
theorem addr_eq_mod : cur.addr = cur.start % 2 ^ w := by
  rw [addr, toNat_add, add_comm, ← start]

/-- The loop stands at the byte `place`, and what is left ends below 2^w. -/
structure At (dev : BlockDev w) (place : Nat) (cur : BlockDevState w) (left count : BitVec w) :
    Prop where
  inside : Inside dev cur left
  addr : 0 < left.toNat → cur.addr = place
  fits : place + left.toNat ≤ 2 ^ w
  count_lt : count.toNat + left.toNat < 2 ^ w

theorem At.toNat_add (h : At dev place cur left count) (hn : n.toNat ≤ left.toNat) :
    (count + n).toNat = count.toNat + n.toNat := by
  have := h.count_lt
  rw [BitVec.toNat_add, Nat.mod_eq_of_lt (by omega)]

theorem At.advance (h : At dev place cur left count) (hpos : 0 < left.toNat)
    (hn : n.toNat ≤ left.toNat) :
    At dev (place + n.toNat) { cur with filePos := cur.filePos + n } (left - n) (count + n) := by
  have hleft : (left - n).toNat = left.toNat - n.toNat := toNat_sub_of_le hn
  have hfits := h.fits
  have hcnt := h.count_lt
  refine ⟨h.inside.advance hn, fun hmore => ?_, by omega, by rw [h.toNat_add hn]; omega⟩
  rw [addr_advance, h.addr hpos, Nat.mod_eq_of_lt (by omega)]

theorem at_start (hin : Inside dev cur length) (hfits : cur.start + length.toNat ≤ 2 ^ w) :
    At dev cur.start cur length 0 :=
  ⟨hin, fun _ => addr_eq_mod.trans (Nat.mod_eq_of_lt (by omega)), hfits, by simpa using length.isLt⟩

theorem Access.Covers.mono {start start' length length' : Nat}
    (h : a.Covers dev start' length') (hstt : start ≤ start')
    (hend : start' + length' = start + length) : a.Covers dev start length := by
  obtain ⟨hlow, hhigh⟩ := h
  refine ⟨le_trans ?_ hlow, ?_⟩
  · exact Int.ofNat_le.mpr (Nat.div_le_div_right hstt)
  · rwa [← hend]

/-- A request of the code covers no more than the bytes that are left. -/
theorem Inside.covers (h : Inside dev cur left) (hleft : 0 < left.toNat) :
    (⟨lba dev cur, (request dev cur left).toNat⟩ : Access).Covers dev cur.addr left.toNat := by
  obtain ⟨-, -, hle⟩ := h.request_spec hleft
  rw [Access.Covers, h.lba_eq hleft]
  refine ⟨le_refl _, ?_⟩
  have hdm := Nat.div_add_mod cur.addr dev.bs
  have hrd : (cur.addr + left.toNat + dev.bs - 1) / dev.bs * dev.bs = cur.addr / dev.bs * dev.bs +
        (cur.addr % dev.bs + left.toNat + dev.bs - 1) / dev.bs * dev.bs := by
    have hpos := dev.bs_pos
    rw [← Nat.add_mul]
    rw [show cur.addr + left.toNat + dev.bs - 1 =
      (cur.addr % dev.bs + left.toNat + dev.bs - 1) + dev.bs * (cur.addr / dev.bs) by omega,
      Nat.add_mul_div_left _ _ hpos, add_comm]
  rw [hrd]
  push_cast
  exact_mod_cast Nat.add_le_add_left hle _

theorem loopReads_zero (place : Nat) (io : IoState w) (buffer : Nat → Byte) (count : BitVec w) :
    LoopReads dev place io buffer 0 count (.done io buffer count) := by
  have hnew : ∀ a ∈ ([] : List Access), a.Covers dev place (0 : BitVec w).toNat :=
    fun a ha => absurd ha not_mem_nil
  have hcur : io.cur = { io.cur with filePos := io.cur.filePos + 0 } := by simp
  have hdone : LoopReads dev place io buffer 0 count (.done io
      (memcpy buffer count.toNat io.device place (0 : BitVec w).toNat) (count + 0)) :=
    .done [] hcur rfl rfl hnew
  simpa using hdone

theorem LoopReads.step {io₁ : IoState w} {r : Result w}
    (hat : At dev place io.cur left count) (hn : n.toNat ≤ left.toNat)
    (hcur : io₁.cur = { io.cur with filePos := io.cur.filePos + n })
    (hdevice : io₁.device = io.device) (hlog : io₁.log = a :: io.log)
    (hcovers : a.Covers dev place left.toNat)
    (h : LoopReads dev (place + n.toNat) io₁ (memcpy buffer count.toNat io.device place n.toNat)
      (left - n) (count + n) r) :
    LoopReads dev place io buffer left count r := by
  have hleft : (left - n).toNat = left.toNat - n.toNat := BitVec.toNat_sub_of_le hn
  have hsum : n + (left - n) = left := (BitVec.add_comm _ _).trans (BitVec.sub_add_cancel left n)
  cases h with
  | @done io' new hcur' hdevice' hlog' hcovers' =>
    have hcopy : memcpy (memcpy buffer count.toNat io.device place n.toNat)
        (count + n).toNat io₁.device (place + n.toNat) (left - n).toNat =
          memcpy buffer count.toNat io.device place left.toNat := by
      rw [hdevice, hat.toNat_add hn, memcpy_memcpy, hleft, Nat.add_sub_cancel' hn]
    rw [hcopy, add_assoc, hsum]
    refine .done (new ++ [a]) ?_ (hdevice'.trans hdevice) ?_ ?_
    · rw [hcur', hcur, add_assoc, hsum]
    · rw [hlog', hlog, List.append_assoc, List.singleton_append]
    · refine forall_mem_append.mpr ⟨fun b hb => ?_, forall_mem_singleton.mpr hcovers⟩
      exact (hcovers' b hb).mono (by omega) (by omega)
  | eio hdevice' => exact .eio (hdevice'.trans hdevice)

/-- How many bytes of the next request the driver transfers. -/
def transferred (dev : BlockDev w) (answer : Nat → Nat) (io : IoState w) (left : BitVec w) : Nat :=
  min (answer io.log.length) (dev.room (lba dev io.cur) (request dev io.cur left).toNat)

/-- One round of the loop: the driver does not get beyond the skipped bytes; or some bytes are
copied from the device, and the loop goes on. -/
theorem blockReadLoop_round {fuel : Nat} (hin : Inside dev io.cur left) (hpos : 0 < left.toNat) :
    (∃ io', blockReadLoop dev answer (fuel + 1) io buffer left count = .eio io' buffer ∧
      transferred dev answer io left ≤ io.cur.addr % dev.bs ∧ io'.device = io.device) ∨
    (∃ io₁ n, blockReadLoop dev answer (fuel + 1) io buffer left count =
        blockReadLoop dev answer fuel io₁ (memcpy buffer count.toNat io.device io.cur.addr n.toNat)
          (left - n) (count + n) ∧
      io.cur.addr % dev.bs < transferred dev answer io left ∧
      n.toNat = min (transferred dev answer io left - io.cur.addr % dev.bs) left.toNat ∧
      io₁.cur = { io.cur with filePos := io.cur.filePos + n } ∧ io₁.device = io.device ∧
      io₁.log = ⟨lba dev io.cur, (request dev io.cur left).toNat⟩ :: io.log) := by
  have hskip := hin.toNat_skip
  rw [blockReadLoop, if_neg (ne_zero_of_toNat_pos hpos)]
  dsimp only
  set out := opsRead dev answer io (lba dev io.cur) (request dev io.cur left)
  have hr : out.2.toNat = transferred dev answer io left := toNat_transferred _
  by_cases hsh : out.2 ≤ skip dev io.cur
  · left
    rw [if_pos hsh]
    rw [le_def, hr, hskip] at hsh
    exact ⟨_, rfl, hsh, rfl⟩
  · right
    rw [if_neg hsh]
    rw [le_def, hr, hskip] at hsh
    have hnat : (nbytes out.2 (skip dev io.cur) left).toNat =
        min (transferred dev answer io left - io.cur.addr % dev.bs) left.toNat := by
      rw [toNat_nbytes (by omega), hr, hskip]
    generalize nbytes out.2 (skip dev io.cur) left = n at hnat ⊢
    refine ⟨{ out.1 with cur := { io.cur with filePos := io.cur.filePos + n } }, n, ?_,
      Nat.lt_of_not_le hsh, hnat, rfl, rfl, rfl⟩
    congr 1
    refine memcpy_congr fun i hi => ?_
    have hlt : io.cur.addr % dev.bs + i < out.2.toNat := by omega
    rw [hskip]
    refine (opsRead_buf hlt).trans ?_
    rw [hin.lba_eq hpos, Int.toNat_natCast, ← add_assoc, mul_comm, Nat.div_add_mod]

theorem blockReadLoop_zero {fuel : Nat} :
    blockReadLoop dev answer fuel io buffer 0 count = .done io buffer count := by
  cases fuel <;> rw [blockReadLoop, if_pos rfl]

theorem blockReadLoop_reads (answer : Nat → Nat) : ∀ (fuel : Nat) (left : BitVec w),
    left.toNat ≤ fuel → ∀ {place io buffer count}, At dev place io.cur left count →
    LoopReads dev place io buffer left count
      (blockReadLoop dev answer fuel io buffer left count) := by
  refine rounds (fun fuel place io buffer count _ => ?_)
    fun fuel left hpos ih place io buffer count hat => ?_
  · rw [blockReadLoop_zero]
    exact loopReads_zero place io buffer count
  have haddr := hat.addr hpos
  have hcovers := hat.inside.covers hpos
  rcases blockReadLoop_round hat.inside hpos with
    ⟨io', hloop, -, hdevice⟩ | ⟨io₁, n, hloop, hlong, hn, hcur, hdevice, hlog⟩
  · rw [hloop]
    exact .eio hdevice
  · rw [haddr] at hcovers
    rw [hloop, haddr]
    have hle : n.toNat ≤ left.toNat := by omega
    refine LoopReads.step hat hle hcur hdevice hlog hcovers (ih n (by omega) hle ?_)
    rw [hcur]
    exact hat.advance hpos hle

theorem blockRead_right (hin : Inside dev io.cur length) (hsize : length.toNat ≤ io.cur.size.toNat)
    (hfits : io.cur.start + length.toNat ≤ 2 ^ w) :
    ReadRight dev io buffer length (blockRead dev answer io buffer length) := by
  rw [blockRead]
  split_ifs with hasr
  · have hloop : LoopReads dev io.cur.start io buffer length 0
        (blockReadLoop dev answer length.toNat io buffer length 0) :=
      blockReadLoop_reads answer length.toNat length le_rfl (at_start hin hfits)
    generalize blockReadLoop dev answer length.toNat io buffer length 0 = r at hloop ⊢
    cases hloop with
    | done new hcur hdevice hlog hcovers =>
      have hcnt : (0 : BitVec w) + length = length := zero_add length
      simp only [assertCount, hcnt, if_true]
      exact .done new hcur hdevice hlog hcovers
    | eio hdevice => exact .eio hdevice
  · refine .assertFailed (eq_of_toNat_eq ?_)
    have hzero : ¬ (0 : BitVec w) < length := fun h => hasr ⟨le_def.mpr hsize, h⟩
    rw [lt_def] at hzero
    have hnat : (0 : BitVec w).toNat = 0 := toNat_zero
    omega

/-! ### Regions that go beyond 2^w -/

/-- From a place below 2^w it is no more than the rest of a block to 2^w, or whole blocks more. -/
theorem rest_of_block_le (h : place < 2 ^ w) : dev.bs - place % dev.bs ≤ 2 ^ w - place := by
  have hle := dev.add_bs_le (Nat.dvd_sub_mod place) dev.bs_dvd (by omega)
  omega

theorem Inside.bs_le_request (h : Inside dev cur left) (hleft : 0 < left.toNat) :
    dev.bs ≤ (request dev cur left).toNat := by
  obtain ⟨hdvd, hskip, -⟩ := h.request_spec hleft
  exact Nat.le_of_dvd (by omega) hdvd

/-- A driver that transfers one block each time. -/
theorem Inside.one_block (h : Inside dev cur left) (hleft : 0 < left.toNat) {r : Nat}
    (hr : dev.bs ≤ r) :
    min dev.bs (dev.room (lba dev cur) r) = dev.bs := by
  have hrest : cur.addr / dev.bs * dev.bs + dev.bs ≤ dev.blocks * dev.bs :=
    dev.add_bs_le (Dvd.intro_left _ rfl) (Dvd.intro_left _ rfl)
      ((Nat.div_mul_le_self _ _).trans_lt (h.addr_lt hleft))
  rw [BlockDev.room, h.lba_eq hleft, if_pos (Int.natCast_nonneg _), Int.toNat_natCast]
  omega

/-- One block is transferred: the code is at the end of the block then, or it has all the bytes.
From a place below 2^w this is not beyond 2^w. -/
theorem one_block_next (hpl : place < 2 ^ w)
    (hn : n.toNat = min (dev.bs - place % 2 ^ w % dev.bs) left.toNat)
    (hwrap : 2 ^ w < place + left.toNat) :
    0 < (left - n).toNat ∧ 2 ^ w < place + n.toNat + (left - n).toNat ∧
      max (place + n.toNat) (2 ^ w) = max place (2 ^ w) := by
  have hrest : dev.bs - place % dev.bs ≤ 2 ^ w - place := rest_of_block_le hpl
  rw [Nat.mod_eq_of_lt hpl] at hn
  rw [toNat_sub_of_le (le_def.mpr (by omega))]
  omega

theorem addr_next {cur' : BlockDevState w} (hpl : cur.addr = place % 2 ^ w)
    (hcur : cur' = { cur with filePos := cur.filePos + n }) :
    cur'.addr = (place + n.toNat) % 2 ^ w := by
  rw [hcur, addr_advance, hpl, Nat.mod_add_mod]

/-- With such a driver, the loop asks for a block at each block boundary. For the first byte beyond
2^w it asks for a block from the start of the device. -/
theorem blockReadLoop_wraps : ∀ (fuel : Nat) (left : BitVec w), left.toNat ≤ fuel →
    ∀ {place io buffer count}, Inside dev io.cur left → io.cur.addr = place % 2 ^ w →
    ∃ io' buffer' count' new,
      blockReadLoop dev (fun _ => dev.bs) fuel io buffer left count = .done io' buffer' count' ∧
      io'.log = new ++ io.log ∧
      (0 < left.toNat → 2 ^ w < place + left.toNat → ∃ a ∈ new,
        a.lba = ((max place (2 ^ w) % 2 ^ w / dev.bs : Nat) : Int)) := by
  refine rounds (fun fuel place io buffer count _ _ => ?_)
    fun fuel left hpos ih place io buffer count hin hpl => ?_
  · rw [blockReadLoop_zero]
    exact ⟨io, buffer, count, [], rfl, rfl, fun hpos => absurd hpos (by simp)⟩
  have hskip : io.cur.addr % dev.bs < dev.bs := Nat.mod_lt _ dev.bs_pos
  have hr : transferred dev (fun _ => dev.bs) io left = dev.bs :=
    hin.one_block hpos (hin.bs_le_request hpos)
  rcases blockReadLoop_round hin hpos with
    ⟨-, -, hsh, -⟩ | ⟨io₁, n, hloop, -, hn, hcur, -, hlog⟩
  · rw [hr] at hsh
    omega
  rw [hr] at hn
  have hle : n.toNat ≤ left.toNat := by omega
  rw [hloop]
  obtain ⟨io', buffer', count', new, hrest, hlog', hwr⟩ :=
    ih n (by omega) hle (hcur ▸ hin.advance hle) (addr_next hpl hcur)
  refine ⟨io', buffer', count',
    new ++ [⟨lba dev io.cur, (request dev io.cur left).toNat⟩], hrest, ?_, fun _ hwrap => ?_⟩
  · rw [hlog', hlog, List.append_assoc, List.singleton_append]
  by_cases hbey : 2 ^ w ≤ place
  · -- This request is the first one beyond 2^w.
    refine ⟨_, mem_append_right _ mem_cons_self, ?_⟩
    rw [hin.lba_eq hpos, hpl, max_eq_left hbey]
  · rw [hpl] at hn
    obtain ⟨hmore, hwrap', hnext⟩ := one_block_next (not_le.mp hbey) hn hwrap
    obtain ⟨a, ha, hlba⟩ := hwr hmore hwrap'
    refine ⟨a, mem_append_left _ ha, ?_⟩
    rw [hlba, hnext]

theorem blockOpen_eq_some {offset : BitVec w} (h : blockOpen dev offset length = some cur) :
    dev.bs ∣ offset.toNat ∧ dev.bs ∣ length.toNat ∧ cur = ⟨offset, 0, length⟩ := by
  rw [blockOpen] at h
  split at h
  next hali =>
    have hoff := congrArg BitVec.toNat hali.1
    have hlength := congrArg BitVec.toNat hali.2
    rw [toNat_umod, dev.toNat_blockSize] at hoff hlength
    exact ⟨Nat.dvd_of_mod_eq_zero (by simpa using hoff),
      Nat.dvd_of_mod_eq_zero (by simpa using hlength), (Option.some.inj h).symm⟩
  · simp at h

/-- A region of whole blocks ends a block below 2^w at least, so that the skipped bytes can be
added to a length in it. -/
theorem inside_of_le {offset filePos size : BitVec w} (hal : dev.bs ∣ offset.toNat)
    (hsize : dev.bs ∣ size.toNat) (hlength : length.toNat ≤ size.toNat)
    (hdevice : offset.toNat + filePos.toNat + length.toNat ≤ dev.blocks * dev.bs) :
    Inside dev { base := offset, filePos, size } length where
  aligned := hal
  fits := by
    have hmod : filePos.toNat % dev.bs < dev.bs := Nat.mod_lt _ dev.bs_pos
    have hroom := dev.add_bs_le hsize dev.bs_dvd size.isLt
    show filePos.toNat % dev.bs + length.toNat < 2 ^ w
    omega
  device := hdevice

/-- Where the first byte beyond 2^w is read or written. -/
theorem wrapped_eq (cur : BlockDevState w) : max cur.start (2 ^ w) % 2 ^ w = cur.start - 2 ^ w := by
  rw [start]
  by_cases hbey : 2 ^ w ≤ cur.base.toNat + cur.filePos.toNat
  · rw [max_eq_left hbey, Nat.mod_eq_sub_mod hbey, Nat.mod_eq_of_lt (by omega)]
  · rw [max_eq_right (by omega), Nat.mod_self]
    omega

/-- **`block_read` is right** for every driver, exactly where the bytes that are asked for lie below
2^w on the device. -/
theorem block_read_right_iff {offset regionLength : BitVec w} {cur₀ : BlockDevState w}
    (hopen : blockOpen dev offset regionLength = some cur₀)
    (hdevice : offset.toNat + regionLength.toNat ≤ dev.blocks * dev.bs)
    {filePos length : BitVec w} (hregion : filePos.toNat + length.toNat ≤ regionLength.toNat) :
    (∀ (answer : Nat → Nat) (io : IoState w) (buffer : Nat → Byte),
      io.cur = { cur₀ with filePos := filePos } →
      ReadRight dev io buffer length (blockRead dev answer io buffer length)) ↔
    length = 0 ∨ offset.toNat + filePos.toNat + length.toNat ≤ 2 ^ w := by
  obtain ⟨hal, hsize, rfl⟩ := blockOpen_eq_some hopen
  have hin : Inside dev { base := offset, filePos, size := regionLength } length :=
    inside_of_le hal hsize (by omega) (by omega)
  constructor
  · intro hall
    by_contra hnot
    obtain ⟨hne, hwrap⟩ := not_or.mp hnot
    have hpos : 0 < length.toNat := Nat.pos_of_ne_zero fun h => hne (eq_of_toNat_eq h)
    -- With one block each time, one of the requests is for a block below the region.
    obtain ⟨io, hio⟩ : ∃ io : IoState w,
      io.cur = { base := offset, filePos, size := regionLength } :=
      ⟨⟨_, fun _ => 0, fun _ => 0, []⟩, rfl⟩
    have hstt : io.cur.start = offset.toNat + filePos.toNat := by
      rw [start, hio]
    have hasr : length ≤ io.cur.size ∧ length > 0 := by
      rw [hio, gt_iff_lt, lt_def, le_def]
      exact ⟨show length.toNat ≤ regionLength.toNat by omega, by simpa using hpos⟩
    have hin' : Inside dev io.cur length := by rwa [hio]
    have hwrap' : 2 ^ w < io.cur.start + length.toNat := by
      rw [hstt]
      exact not_le.mp hwrap
    obtain ⟨io', buffer', count', new, hloop, hlog, hwr⟩ :=
      blockReadLoop_wraps length.toNat length le_rfl hin' addr_eq_mod
    obtain ⟨a, ha, hlba⟩ := hwr hpos hwrap'
    have hrt := hall (fun _ => dev.bs) io (fun _ => 0) hio
    rw [blockRead, if_pos hasr, hloop, assertCount] at hrt
    split_ifs at hrt with hcnt
    · cases hrt with
      | done new' _ _ hlog' hcovers =>
        obtain rfl : new = new' := append_cancel_right (hlog.symm.trans hlog')
        obtain ⟨hlow, -⟩ := hcovers a ha
        rw [hlba, wrapped_eq] at hlow
        have hbel : io.cur.start - 2 ^ w < offset.toNat := by
          omega
        have hdiv : (io.cur.start - 2 ^ w) / dev.bs < offset.toNat / dev.bs :=
          Nat.div_lt_of_lt_mul (by rwa [Nat.mul_div_cancel' hal])
        have hmono : offset.toNat / dev.bs ≤ io.cur.start / dev.bs :=
          Nat.div_le_div_right (by omega)
        omega
    · cases hrt with
      | assertFailed hzero => exact hne hzero
  · rintro hcond answer io buffer hcur
    by_cases hzero : length = 0
    · have hasr : ¬ (length ≤ io.cur.size ∧ length > 0) := by
        rw [hzero]
        exact fun h => absurd h.2 (BitVec.lt_irrefl _)
      rw [blockRead, if_neg hasr]
      exact .assertFailed hzero
    · refine blockRead_right (by rw [hcur]; exact hin) ?_ ?_
      · rw [hcur]
        exact le_trans (Nat.le_add_left _ _) hregion
      · rw [start, hcur]
        exact hcond.resolve_left hzero

/-! ### A card of 8 GiB on AArch32 -/

/-- Blocks of 512 bytes, and a bounce buffer of 1 KiB. -/
def card : BlockDev 32 where
  exponent := 9
  exponent_lt := by decide
  bufLength := 1024
  bufLength_ne := by decide
  dvd_bufLength := by decide
  blocks := 2 ^ 24
  blocks_lt := by decide

/-- The bytes from 4 GiB on are ones, and those below are zeros. -/
def cardContent (x : Nat) : Byte := if 2 ^ 32 ≤ x then 1 else 0

/-- 1 KiB is read from the end of the first GiB. -/
theorem block_read_right_card :
    ReadRight card ⟨⟨0x40000000, 100, 0x1000⟩, cardContent, fun _ => 0, []⟩ (fun _ => 0) 1024
      (blockRead card (fun _ => 512) ⟨⟨0x40000000, 100, 0x1000⟩, cardContent, fun _ => 0, []⟩
        (fun _ => 0) 1024) := by
  have hopen : blockOpen card 0x40000000 0x1000 = some ⟨0x40000000, 0, 0x1000⟩ := by decide
  have hreg : (100 : BitVec 32).toNat + (1024 : BitVec 32).toNat ≤ (0x1000 : BitVec 32).toNat := by
    decide
  exact (block_read_right_iff hopen (by decide) hreg).mpr (.inr (by decide)) (fun _ => 512) _ _ rfl

/-- A region of 1 KiB with its middle at 4 GiB. -/
def acrossRegion : IoState 32 := ⟨⟨0xFFFFFE00, 0, 0x400⟩, cardContent, fun _ => 0, []⟩

/-- The second half of the region is read from the start of the card. -/
theorem read_wraps_at_4GiB : blockOpen card 0xFFFFFE00 0x400 = some acrossRegion.cur ∧
    ∃ io' buffer', blockRead card (fun _ => 512) acrossRegion (fun _ => 0) 0x400 =
        .done io' buffer' 0x400 ∧
      io'.log = [⟨0, 512⟩, ⟨0x7FFFFF, 1024⟩] ∧ buffer' 512 = 0 ∧
      acrossRegion.device (acrossRegion.cur.start + 512) = 1 := by
  refine ⟨by decide, ?_⟩
  have hdone : (blockRead card (fun _ => 512) acrossRegion (fun _ => 0) 0x400).isDone
      (fun io' buffer' count => io'.log = [⟨0, 512⟩, ⟨0x7FFFFF, 1024⟩] ∧ buffer' 512 = 0 ∧
        count = 0x400) = true := by decide +kernel
  obtain ⟨io', buffer', count, hrun, hend⟩ := Result.isDone_eq_true hdone
  obtain ⟨hlog, hbuf, rfl⟩ := of_decide_eq_true hend
  exact ⟨io', buffer', hrun, hlog, hbuf, by decide⟩

end TrustedFirmware.Io.Block
