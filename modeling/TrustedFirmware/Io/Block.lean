import Mathlib.Data.BitVec
import TrustedFirmware.Lib.Bits

/-!
# Reading and writing any bytes of a block device (`io_block.c`)

The driver below only transfers whole blocks, and it may transfer less than it is asked for; the
code goes through a bounce buffer, one request after the other, and leaves out what it does not need
of the first and the last block.

`size_t` has `w` bits, so that the model covers both AArch32 and AArch64. How much of a request the
driver transfers is given by the environment, as a number for each operation.
-/

namespace TrustedFirmware.Io.Block

open Lib BitVec

abbrev Byte := BitVec 8

variable {w : Nat}

/-! ### The device -/

/-- `io_block_dev_spec_t` as `block_dev_open` accepts it, and the number of blocks of the device. -/
structure BlockDev (w : Nat) where
  /-- The block size is this power of two. -/
  exponent : Nat
  exponent_lt : exponent < w
  /-- `buffer.length`. -/
  bufLength : BitVec w
  bufLength_ne : bufLength ≠ 0
  dvd_bufLength : 2 ^ exponent ∣ bufLength.toNat
  blocks : Nat
  blocks_lt : blocks < 2 ^ 31

/-- `block_size`. -/
def BlockDev.blockSize (dev : BlockDev w) : BitVec w := BitVec.ofNat w (2 ^ dev.exponent)

/-- The number of bytes in a block. -/
def BlockDev.bs (dev : BlockDev w) : Nat := 2 ^ dev.exponent

/-- `block_dev_state_t`. -/
structure BlockDevState (w : Nat) where
  base : BitVec w
  filePos : BitVec w
  size : BitVec w
  deriving DecidableEq

/-- A request to the driver. -/
structure Access where
  lba : Int
  size : Nat
  deriving DecidableEq

/-- The open file, the device, the bounce buffer, and what the driver has been asked for. -/
structure IoState (w : Nat) where
  cur : BlockDevState w
  device : Nat → Byte
  buf : Nat → Byte
  log : List Access

/-- How much of a request the device has. -/
def BlockDev.room (dev : BlockDev w) (lba : Int) (size : Nat) : Nat :=
  if 0 ≤ lba then min size (dev.blocks * dev.bs - lba.toNat * dev.bs) else 0

/-- `ops->read`. The driver transfers the start of the request. -/
def opsRead (dev : BlockDev w) (answer : Nat → Nat) (io : IoState w) (lba : Int)
    (request : BitVec w) : IoState w × BitVec w :=
  let n := min (answer io.log.length) (dev.room lba request.toNat)
  ({ io with
    buf := fun i => if i < n then io.device (lba.toNat * dev.bs + i) else io.buf i
    log := ⟨lba, request.toNat⟩ :: io.log }, BitVec.ofNat w n)

/-- `ops->write`. -/
def opsWrite (dev : BlockDev w) (answer : Nat → Nat) (io : IoState w) (lba : Int)
    (request : BitVec w) : IoState w × BitVec w :=
  let n := min (answer io.log.length) (dev.room lba request.toNat)
  ({ io with
    device := fun x =>
      if lba.toNat * dev.bs ≤ x ∧ x < lba.toNat * dev.bs + n then io.buf (x - lba.toNat * dev.bs)
      else io.device x
    log := ⟨lba, request.toNat⟩ :: io.log }, BitVec.ofNat w n)

/-! ### The code -/

/-- `block_open`; `none` is a failed assertion. -/
def blockOpen (dev : BlockDev w) (offset length : BitVec w) : Option (BlockDevState w) :=
  if offset % dev.blockSize = 0 ∧ length % dev.blockSize = 0 then some ⟨offset, 0, length⟩ else none

/-- `skip`. -/
def skip (dev : BlockDev w) (cur : BlockDevState w) : BitVec w :=
  cur.filePos &&& (dev.blockSize - 1)

/-- `lba`, which is an `int`. -/
def lba (dev : BlockDev w) (cur : BlockDevState w) : Int :=
  (((cur.filePos + cur.base) / dev.blockSize).setWidth 32).toInt

/-- `request`. -/
def request (dev : BlockDev w) (cur : BlockDevState w) (left : BitVec w) : BitVec w :=
  if skip dev cur + left > dev.bufLength then dev.bufLength
  else (skip dev cur + left + (dev.blockSize - 1)) &&& ~~~ (dev.blockSize - 1)

/-- `padding`, for the bytes of a request behind the skipped ones. -/
def padding (nbytes left : BitVec w) : BitVec w := if nbytes > left then nbytes - left else 0

/-- `nbytes`, once the padding has been taken off. -/
def nbytes (request skip left : BitVec w) : BitVec w :=
  request - skip - padding (request - skip) left

/-- `memcpy`. -/
def memcpy (dst : Nat → Byte) (off : Nat) (src : Nat → Byte) (start n : Nat) : Nat → Byte :=
  fun i => if off ≤ i ∧ i < off + n then src (start + (i - off)) else dst i

/-- How `block_read` and `block_write` end. `buffer` is the caller's buffer. -/
inductive Result (w : Nat)
  | done (io : IoState w) (buffer : Nat → Byte) (count : BitVec w)
  | eio (io : IoState w) (buffer : Nat → Byte)
  | assertFailed
  | outOfFuel

/-- The loop has ended, in a way that passes the test. -/
def Result.isDone (p : IoState w → (Nat → Byte) → BitVec w → Bool) : Result w → Bool
  | .done io buffer count => p io buffer count
  | .eio _ _ | .assertFailed | .outOfFuel => false

theorem Result.isDone_eq_true {p : IoState w → (Nat → Byte) → BitVec w → Bool} {r : Result w}
    (h : r.isDone p = true) :
    ∃ io buffer count, r = .done io buffer count ∧ p io buffer count = true := by
  cases r with
  | done io buffer count => exact ⟨io, buffer, count, rfl, h⟩
  | eio | assertFailed | outOfFuel => cases h

/-- The loop of `block_read`. -/
def blockReadLoop (dev : BlockDev w) (answer : Nat → Nat) :
    Nat → IoState w → (Nat → Byte) → BitVec w → BitVec w → Result w
  | fuel, io, buffer, left, count =>
    if left = 0 then .done io buffer count
    else
      match fuel with
      | 0 => .outOfFuel
      | fuel + 1 =>
        let skip := skip dev io.cur
        let (io, request) := opsRead dev answer io (lba dev io.cur) (request dev io.cur left)
        if request ≤ skip then .eio io buffer
        else
          let nbytes := nbytes request skip left
          let buffer := memcpy buffer count.toNat io.buf skip.toNat nbytes.toNat
          let io := { io with cur := { io.cur with filePos := io.cur.filePos + nbytes } }
          blockReadLoop dev answer fuel io buffer (left - nbytes) (count + nbytes)

/-- `assert(count == length)` at the end. -/
def assertCount (length : BitVec w) : Result w → Result w
  | .done io buffer count => if count = length then .done io buffer count else .assertFailed
  | r => r

/-- `block_read`. Every round takes at least one byte, so that `length` is enough fuel. -/
def blockRead (dev : BlockDev w) (answer : Nat → Nat) (io : IoState w) (buffer : Nat → Byte)
    (length : BitVec w) : Result w :=
  if length ≤ io.cur.size ∧ length > 0 then
    assertCount length (blockReadLoop dev answer length.toNat io buffer length 0)
  else .assertFailed

/-- Where not all of the request is written, the code reads it before; `Except.error` is `-EIO`. -/
def readBefore (dev : BlockDev w) (answer : Nat → Nat) (io : IoState w) (left : BitVec w) :
    Except (IoState w) (IoState w × BitVec w) :=
  let skip := skip dev io.cur
  let request := request dev io.cur left
  if skip > 0 ∨ padding (request - skip) left > 0 then
    let (io, request) := opsRead dev answer io (lba dev io.cur) request
    -- Only whole blocks can be written back.
    let request := request &&& ~~~ (dev.blockSize - 1)
    if request ≤ skip then .error io else .ok (io, request)
  else .ok (io, request)

/-- The loop of `block_write`. -/
def blockWriteLoop (dev : BlockDev w) (answer : Nat → Nat) (buffer : Nat → Byte) :
    Nat → IoState w → BitVec w → BitVec w → Result w
  | fuel, io, left, count =>
    if left = 0 then .done io buffer count
    else
      match fuel with
      | 0 => .outOfFuel
      | fuel + 1 =>
        let skip := skip dev io.cur
        match readBefore dev answer io left with
        | .error io => .eio io buffer
        | .ok (io, request) =>
          let io := { io with
            buf := memcpy io.buf skip.toNat buffer count.toNat (nbytes request skip left).toNat }
          let (io, request) := opsWrite dev answer io (lba dev io.cur) request
          if request ≤ skip then .eio io buffer
          else
            let nbytes := nbytes request skip left
            let io := { io with cur := { io.cur with filePos := io.cur.filePos + nbytes } }
            blockWriteLoop dev answer buffer fuel io (left - nbytes) (count + nbytes)

/-- `block_write`. -/
def blockWrite (dev : BlockDev w) (answer : Nat → Nat) (io : IoState w) (buffer : Nat → Byte)
    (length : BitVec w) : Result w :=
  if length ≤ io.cur.size ∧ length > 0 then
    assertCount length (blockWriteLoop dev answer buffer length.toNat io length 0)
  else .assertFailed

/-! ### One request -/

variable {dev : BlockDev w} {cur : BlockDevState w} {left : BitVec w}

theorem BlockDev.bs_pos (dev : BlockDev w) : 0 < dev.bs := Nat.two_pow_pos _

theorem BlockDev.bs_dvd (dev : BlockDev w) : dev.bs ∣ 2 ^ w := pow_dvd_pow 2 dev.exponent_lt.le

theorem BlockDev.bs_lt (dev : BlockDev w) : dev.bs < 2 ^ w :=
  Nat.pow_lt_pow_right (by decide) dev.exponent_lt

theorem BlockDev.add_bs_le (dev : BlockDev w) {m n : Nat} (hm : dev.bs ∣ m) (hn : dev.bs ∣ n)
    (h : m < n) : m + dev.bs ≤ n := by
  have hle := Nat.le_of_dvd (Nat.sub_pos_of_lt h) (Nat.dvd_sub hn hm)
  omega

theorem BlockDev.toNat_blockSize (dev : BlockDev w) : dev.blockSize.toNat = dev.bs := by
  exact Nat.mod_eq_of_lt dev.bs_lt

theorem BlockDev.toNat_one (dev : BlockDev w) : (1 : BitVec w).toNat = 1 := by
  have hw : 1 < 2 ^ w := Nat.one_lt_two_pow (Nat.ne_zero_of_lt dev.exponent_lt)
  exact (toNat_ofNat 1 w).trans (Nat.mod_eq_of_lt hw)

theorem BlockDev.blockSize_sub_one (dev : BlockDev w) :
    dev.blockSize - 1 = BitVec.ofNat w (2 ^ dev.exponent - 1) := by
  apply eq_of_toNat_eq
  have hlt := dev.bs_lt
  have hpos := dev.bs_pos
  rw [toNat_lowMask dev.exponent_lt.le, toNat_sub, dev.toNat_blockSize, dev.toNat_one,
    BlockDev.bs] at *
  rw [show 2 ^ w - 1 + 2 ^ dev.exponent = 2 ^ dev.exponent - 1 + 2 ^ w by omega, Nat.add_mod_right]
  exact Nat.mod_eq_of_lt (by omega)

theorem toNat_skip : (skip dev cur).toNat = cur.filePos.toNat % dev.bs := by
  rw [skip, dev.blockSize_sub_one, toNat_and, toNat_lowMask dev.exponent_lt.le,
    Nat.and_two_pow_sub_one_eq_mod]
  rfl

theorem toNat_roundDown (x : BitVec w) :
    (x &&& ~~~ (dev.blockSize - 1)).toNat = x.toNat / dev.bs * dev.bs := by
  rw [dev.blockSize_sub_one]
  exact toNat_and_not_lowMask dev.exponent_lt.le x

/-- Where the next byte is on the device. -/
def BlockDevState.addr (cur : BlockDevState w) : Nat := (cur.filePos + cur.base).toNat

theorem BlockDevState.addr_advance (cur : BlockDevState w) (n : BitVec w) :
    ({ cur with filePos := cur.filePos + n } : BlockDevState w).addr =
      (cur.addr + n.toNat) % 2 ^ w := by
  have hcomm : cur.filePos + n + cur.base = cur.filePos + cur.base + n := by ac_rfl
  rw [addr, hcomm, toNat_add]
  rfl

/-- The next `left` bytes are on the device, and the skipped bytes with them do not exceed a
`size_t`. -/
structure Inside (dev : BlockDev w) (cur : BlockDevState w) (left : BitVec w) : Prop where
  aligned : dev.bs ∣ cur.base.toNat
  fits : cur.filePos.toNat % dev.bs + left.toNat < 2 ^ w
  device : cur.base.toNat + cur.filePos.toNat + left.toNat ≤ dev.blocks * dev.bs

namespace Inside

variable (h : Inside dev cur left)

include h

theorem addr_mod : cur.addr % dev.bs = cur.filePos.toNat % dev.bs := by
  obtain ⟨b, hb⟩ := h.aligned
  rw [BlockDevState.addr, toNat_add, Nat.mod_mod_of_dvd _ dev.bs_dvd, hb]
  exact Nat.add_mul_mod_self_left _ _ _

theorem addr_lt (hleft : 0 < left.toNat) : cur.addr < dev.blocks * dev.bs := by
  have hdev := h.device
  rw [BlockDevState.addr, toNat_add]
  have hmod := Nat.mod_le (cur.filePos.toNat + cur.base.toNat) (2 ^ w)
  omega

theorem lba_eq (hleft : 0 < left.toNat) : lba dev cur = ((cur.addr / dev.bs : Nat) : Int) := by
  have hblk : cur.addr / dev.bs < dev.blocks :=
    (Nat.div_lt_iff_lt_mul dev.bs_pos).mpr (h.addr_lt hleft)
  have hblocks := dev.blocks_lt
  have hdiv : ((cur.filePos + cur.base) / dev.blockSize).toNat = cur.addr / dev.bs := by
    rw [toNat_udiv, dev.toNat_blockSize, BlockDevState.addr]
  have hnat : (((cur.filePos + cur.base) / dev.blockSize).setWidth 32).toNat =
      cur.addr / dev.bs := by
    rw [toNat_setWidth, hdiv]
    exact Nat.mod_eq_of_lt (by omega)
  rw [lba, toInt_eq_toNat_of_lt (by omega), hnat]

theorem toNat_skip_add : (skip dev cur + left).toNat = cur.addr % dev.bs + left.toNat := by
  rw [toNat_add, toNat_skip, h.addr_mod, Nat.mod_eq_of_lt h.fits]

/-- A request has whole blocks, it goes beyond the skipped bytes, and no further than the last block
that is needed. -/
theorem request_spec (hleft : 0 < left.toNat) : dev.bs ∣ (request dev cur left).toNat ∧
      cur.addr % dev.bs < (request dev cur left).toNat ∧
      (request dev cur left).toNat ≤
        (cur.addr % dev.bs + left.toNat + dev.bs - 1) / dev.bs * dev.bs := by
  have hpos := dev.bs_pos
  have hskip : cur.addr % dev.bs < dev.bs := Nat.mod_lt _ hpos
  have hsum := h.toNat_skip_add
  have hbuf : dev.bs ≤ dev.bufLength.toNat :=
    Nat.le_of_dvd (Nat.pos_of_ne_zero fun h => dev.bufLength_ne (eq_of_toNat_eq h))
      dev.dvd_bufLength
  have hup : ∀ n, n ≤ (n + dev.bs - 1) / dev.bs * dev.bs := by
    intro n
    have hdm := Nat.div_add_mod (n + dev.bs - 1) dev.bs
    have hlt := Nat.mod_lt (n + dev.bs - 1) hpos
    rw [mul_comm] at hdm
    omega
  rw [request]
  split_ifs with hbig
  · have hlt : dev.bufLength.toNat < (skip dev cur + left).toNat := hbig
    exact ⟨dev.dvd_bufLength, by omega, le_trans (by omega) (hup _)⟩
  · have hle : (skip dev cur + left).toNat ≤ dev.bufLength.toNat := not_lt.mp hbig
    -- The buffer ends at least a block below 2^w, so that rounding up does not wrap around.
    have hroom := dev.add_bs_le dev.dvd_bufLength dev.bs_dvd dev.bufLength.isLt
    have hone : (dev.blockSize - 1).toNat = dev.bs - 1 := by
      rw [dev.blockSize_sub_one, toNat_lowMask dev.exponent_lt.le]
      rfl
    have hrd : (skip dev cur + left + (dev.blockSize - 1)).toNat =
        cur.addr % dev.bs + left.toNat + dev.bs - 1 := by
      rw [toNat_add, hone, Nat.mod_eq_of_lt (by omega)]
      omega
    rw [toNat_roundDown, hrd]
    refine ⟨Dvd.intro_left _ rfl, ?_, le_rfl⟩
    exact lt_of_lt_of_le (by omega) (hup _)

theorem advance {n : BitVec w} (hn : n.toNat ≤ left.toNat) :
    Inside dev { cur with filePos := cur.filePos + n } (left - n) where
  aligned := h.aligned
  fits := by
    have hfits := h.fits
    have hleft : (left - n).toNat = left.toNat - n.toNat := toNat_sub_of_le hn
    have hmod : (cur.filePos + n).toNat % dev.bs ≤ cur.filePos.toNat % dev.bs + n.toNat := by
      rw [toNat_add, Nat.mod_mod_of_dvd _ dev.bs_dvd, ← Nat.mod_add_mod]
      exact Nat.mod_le _ _
    show (cur.filePos + n).toNat % dev.bs + (left - n).toNat < 2 ^ w
    omega
  device := by
    have hdev := h.device
    have hleft : (left - n).toNat = left.toNat - n.toNat := toNat_sub_of_le hn
    have hmod : (cur.filePos + n).toNat ≤ cur.filePos.toNat + n.toNat := by
      exact Nat.mod_le _ _
    show cur.base.toNat + (cur.filePos + n).toNat + (left - n).toNat ≤ dev.blocks * dev.bs
    omega

theorem toNat_skip : (skip dev cur).toNat = cur.addr % dev.bs := by
  rw [Block.toNat_skip, ← h.addr_mod]

end Inside

theorem ne_zero_of_toNat_pos (h : 0 < left.toNat) : left ≠ 0 := by
  rintro rfl
  simp at h

/-- Rounds that each take some of what is left come to an end if there is fuel for every byte. -/
theorem rounds {motive : Nat → BitVec w → Prop} (zero : ∀ fuel, motive fuel 0)
    (round : ∀ fuel left, 0 < left.toNat →
      (∀ n : BitVec w, 0 < n.toNat → n.toNat ≤ left.toNat → motive fuel (left - n)) →
      motive (fuel + 1) left) (fuel) (left) (hfuel : left.toNat ≤ fuel) : motive fuel left := by
  induction fuel generalizing left with
  | zero =>
    obtain rfl : left = 0 := eq_of_toNat_eq (by simpa using hfuel)
    exact zero 0
  | succ fuel ih =>
    by_cases hzero : left = 0
    · exact hzero ▸ zero _
    have hpos : 0 < left.toNat := Nat.pos_of_ne_zero fun h => hzero (eq_of_toNat_eq h)
    refine round fuel left hpos fun n hn hle => ih _ ?_
    rw [toNat_sub_of_le hle]
    omega

/-- The bytes of a request behind the skipped ones, as far as they are needed. -/
theorem toNat_nbytes {request skip left : BitVec w} (h : skip.toNat ≤ request.toNat) :
    (nbytes request skip left).toNat = min (request.toNat - skip.toNat) left.toNat := by
  have hsub : (request - skip).toNat = request.toNat - skip.toNat := toNat_sub_of_le h
  rw [nbytes, padding]
  by_cases hgt : request - skip > left
  · have hlt : left.toNat < (request - skip).toNat := hgt
    have hpad : (request - skip - left).toNat = request.toNat - skip.toNat - left.toNat := by
      rw [toNat_sub_of_le (le_def.mpr hlt.le), hsub]
    rw [if_pos hgt, toNat_sub_of_le (le_def.mpr (by omega)), hpad, hsub]
    omega
  · have hle : (request - skip).toNat ≤ left.toNat := not_lt.mp hgt
    have hzero : request - skip - 0 = request - skip := sub_zero _
    rw [if_neg hgt, hzero, hsub]
    omega

/-! ### Copying -/

theorem memcpy_memcpy (dst src : Nat → Byte) (off start n m : Nat) :
    memcpy (memcpy dst off src start n) (off + n) src (start + n) m =
      memcpy dst off src start (n + m) := by
  funext i
  simp only [memcpy]
  split
  next hsnd =>
    rw [if_pos (by omega), show start + n + (i - (off + n)) = start + (i - off) by omega]
  next hsnd => exact if_congr (by omega) rfl rfl

theorem memcpy_congr {dst src src' : Nat → Byte} {off start start' n : Nat}
    (h : ∀ i < n, src (start + i) = src' (start' + i)) :
    memcpy dst off src start n = memcpy dst off src' start' n := by
  funext i
  simp only [memcpy]
  by_cases hi : off ≤ i ∧ i < off + n
  · rw [if_pos hi, if_pos hi]
    exact h (i - off) (by omega)
  · rw [if_neg hi, if_neg hi]

@[simp] theorem memcpy_zero (dst src : Nat → Byte) (off start : Nat) :
    memcpy dst off src start 0 = dst := by
  funext i
  exact if_neg (by omega)

/-! ### The driver -/

variable {answer : Nat → Nat} {io : IoState w} {l : Int} {request : BitVec w}

theorem toNat_transferred (n : Nat) : (BitVec.ofNat w (min n (dev.room l request.toNat))).toNat =
      min n (dev.room l request.toNat) := by
  have hroom : dev.room l request.toNat ≤ request.toNat := by
    rw [BlockDev.room]
    split
    · exact min_le_left _ _
    · exact Nat.zero_le _
  exact Nat.mod_eq_of_lt (by omega)

theorem opsRead_buf {i : Nat} (hi : i < (opsRead dev answer io l request).2.toNat) :
    (opsRead dev answer io l request).1.buf i = io.device (l.toNat * dev.bs + i) := by
  rw [opsRead, toNat_transferred] at hi
  exact if_pos hi

theorem opsWrite_le : (opsWrite dev answer io l request).2.toNat ≤ request.toNat := by
  rw [opsWrite, toNat_transferred, BlockDev.room]
  split <;> omega

/-- What is written goes to the device, from the start of the block on. -/
theorem opsWrite_device : (opsWrite dev answer io l request).1.device =
      memcpy io.device (l.toNat * dev.bs) io.buf 0 (opsWrite dev answer io l request).2.toNat := by
  funext x
  simp only [opsWrite, memcpy, toNat_transferred, zero_add]

end TrustedFirmware.Io.Block
