import TrustedFirmware.Io.BlockRead

/-!
# `block_write` changes the bytes that it is asked for, and no others

A block of which only a part is written is read before, so that the driver writes back what the
device had in the rest of it. This holds for every part of a request that the driver may write, and
so it holds as well when the code gives up in the middle.

As for reading, the place on the device is computed in a `size_t`.
-/

namespace TrustedFirmware.Io.Block

open BitVec (le_def lt_def toNat_zero toNat_sub_of_le add_assoc)

variable {w : Nat} {dev : BlockDev w}

/-! ### One round -/

variable {buffer dst src : Nat → Byte} {answer : Nat → Nat} {io : IoState w} {left count : BitVec w}
  {off start n fuel : Nat}

/-- Writing back a buffer that differs from the device in some bytes only. The buffer has `r₁` bytes
of the device from `block` on, but for the bytes of the caller from `skip` on, and `r₂` of them are
written. -/
theorem memcpy_bounced {device buf : Nat → Byte} {block skip count left r₁ r₂ : Nat} (hr : r₂ ≤ r₁)
    (hskip : skip ≤ r₁)
    (hbuf : ∀ i < r₁, i < skip ∨ skip + min (r₁ - skip) left ≤ i → buf i = device (block + i)) :
    memcpy device block (memcpy buf skip buffer count (min (r₁ - skip) left)) 0 r₂ =
      memcpy device (block + skip) buffer count (min (r₂ - skip) left) := by
  funext x
  simp only [memcpy, zero_add]
  split
  next hin =>
    split
    next hnew =>
      rw [if_pos (by omega), show x - block - skip = x - (block + skip) by omega]
    next hnew =>
      rw [if_neg (by omega), hbuf (x - block) (by omega) (by omega)]
      congr 1
      omega
  next hin =>
    rw [if_neg (by omega)]

/-- How much of the request of a round is prepared for writing: all of it, or the whole blocks that
have been read. -/
def Prepared (dev : BlockDev w) (answer : Nat → Nat) (io : IoState w) (left : BitVec w)
    (r : Nat) : Prop :=
  r = (request dev io.cur left).toNat ∨
    ∃ k, r = min (answer k) (dev.room (lba dev io.cur) (request dev io.cur left).toNat) /
      dev.bs * dev.bs

theorem readBefore_spec (hin : Inside dev io.cur left) (hpos : 0 < left.toNat) :
    (∃ io' r, readBefore dev answer io left = .error io' ∧ io'.device = io.device ∧
      Prepared dev answer io left r ∧ r ≤ io.cur.addr % dev.bs) ∨
    (∃ io₁ r, readBefore dev answer io left = .ok (io₁, r) ∧ io₁.cur = io.cur ∧
      io₁.device = io.device ∧ Prepared dev answer io left r.toNat ∧
      io.cur.addr % dev.bs < r.toNat ∧
      ∀ i < r.toNat, i < io.cur.addr % dev.bs ∨
        io.cur.addr % dev.bs + min (r.toNat - io.cur.addr % dev.bs) left.toNat ≤ i →
        io₁.buf i = io.device (io.cur.addr / dev.bs * dev.bs + i)) := by
  have hskip := hin.toNat_skip
  obtain ⟨-, hlong, -⟩ := hin.request_spec hpos
  rw [readBefore]
  dsimp only
  split
  next hnd =>
    have hr : (opsRead dev answer io (lba dev io.cur) (request dev io.cur left)).2.toNat =
        transferred dev answer io left := toNat_transferred _
    have hrd : ((opsRead dev answer io (lba dev io.cur) (request dev io.cur left)).2 &&&
        ~~~ (dev.blockSize - 1)).toNat = transferred dev answer io left / dev.bs * dev.bs := by
      rw [toNat_roundDown, hr]
    split_ifs with hsh
    · rw [le_def, hrd, hskip] at hsh
      exact .inl ⟨_, _, rfl, rfl, .inr ⟨_, rfl⟩, hsh⟩
    · rw [le_def, hrd, hskip] at hsh
      refine .inr ⟨_, _, rfl, rfl, rfl, .inr ⟨_, hrd⟩, by omega, fun i hi _ => ?_⟩
      have hdown := Nat.div_mul_le_self (transferred dev answer io left) dev.bs
      rw [opsRead_buf (by omega), hin.lba_eq hpos, Int.toNat_natCast]
  next hnd =>
    obtain ⟨hno, hnop⟩ := not_or.mp hnd
    refine .inr ⟨_, _, rfl, rfl, rfl, .inl rfl, hlong, fun i hi hout => ?_⟩
    -- Nothing is skipped and there is no padding, so that there is no such byte.
    have hzero : io.cur.addr % dev.bs = 0 := by
      rw [gt_iff_lt, lt_def, hskip] at hno
      have hnat : (0 : BitVec w).toNat = 0 := toNat_zero
      omega
    have hpad : (request dev io.cur left).toNat ≤ left.toNat := by
      have hsub : (request dev io.cur left - skip dev io.cur).toNat =
          (request dev io.cur left).toNat := by
        rw [toNat_sub_of_le (le_def.mpr (by omega)), hskip, hzero, Nat.sub_zero]
      by_contra hmore
      refine hnop ?_
      have hgt : request dev io.cur left - skip dev io.cur > left := by
        rw [gt_iff_lt, lt_def]
        omega
      rw [padding, if_pos hgt, gt_iff_lt, lt_def,
        toNat_sub_of_le (le_def.mpr (by omega))]
      have hnat : (0 : BitVec w).toNat = 0 := toNat_zero
      omega
    omega

/-- One round of the loop: the code gives up, or some bytes of the caller are on the device, and the
loop goes on. -/
theorem blockWriteLoop_round (answer : Nat → Nat) (hin : Inside dev io.cur left)
    (hpos : 0 < left.toNat) :
    ∃ r₁ r₂ k, Prepared dev answer io left r₁ ∧ r₂ = min (answer k) (dev.room (lba dev io.cur) r₁) ∧
      ((∃ io', blockWriteLoop dev answer buffer (fuel + 1) io left count = .eio io' buffer ∧
        io'.device = io.device ∧ (r₁ ≤ io.cur.addr % dev.bs ∨ r₂ ≤ io.cur.addr % dev.bs)) ∨
      (∃ io₁ n, blockWriteLoop dev answer buffer (fuel + 1) io left count =
          blockWriteLoop dev answer buffer fuel io₁ (left - n) (count + n) ∧
        io.cur.addr % dev.bs < r₂ ∧ n.toNat = min (r₂ - io.cur.addr % dev.bs) left.toNat ∧
        io₁.cur = { io.cur with filePos := io.cur.filePos + n } ∧
        io₁.device = memcpy io.device io.cur.addr buffer count.toNat n.toNat)) := by
  have hskip := hin.toNat_skip
  rw [blockWriteLoop, if_neg (ne_zero_of_toNat_pos hpos)]
  rcases readBefore_spec hin hpos with
    ⟨io', r, hread, hdevice, hprep, hsh⟩ | ⟨io₁, r, hread, hcur, hdevice, hprep, hlong, hbuf⟩
  · rw [hread]
    exact ⟨r, _, 0, hprep, rfl, .inl ⟨io', rfl, hdevice, .inl hsh⟩⟩
  rw [hread]
  dsimp only
  rw [hcur]
  have hnb : (nbytes r (skip dev io.cur) left).toNat =
      min (r.toNat - io.cur.addr % dev.bs) left.toNat := by
    rw [toNat_nbytes (by omega), hskip]
  rw [hnb, hskip]
  obtain ⟨io₂, hio₂⟩ : ∃ io₂ : IoState w, io₂ = { io₁ with
      cur := io.cur
      buf := memcpy io₁.buf (io.cur.addr % dev.bs) buffer count.toNat
        (min (r.toNat - io.cur.addr % dev.bs) left.toNat) } := ⟨_, rfl⟩
  obtain ⟨out, hout⟩ : ∃ out, out = opsWrite dev answer io₂ (lba dev io.cur) r := ⟨_, rfl⟩
  have hr₂ : out.2.toNat = min (answer io₂.log.length) (dev.room (lba dev io.cur) r.toNat) := by
    rw [hout]
    exact toNat_transferred _
  have hle : out.2.toNat ≤ r.toNat := hout ▸ opsWrite_le
  have hwr : out.1.device = memcpy io.device io.cur.addr buffer count.toNat
      (min (out.2.toNat - io.cur.addr % dev.bs) left.toNat) := by
    have hblk : (lba dev io.cur).toNat * dev.bs = io.cur.addr / dev.bs * dev.bs := by
      rw [hin.lba_eq hpos, Int.toNat_natCast]
    have hpl : io.cur.addr / dev.bs * dev.bs + io.cur.addr % dev.bs = io.cur.addr := by
      rw [mul_comm, Nat.div_add_mod]
    rw [hout, opsWrite_device, hblk, ← hout, hio₂, hdevice]
    refine (memcpy_bounced hle hlong.le hbuf).trans ?_
    rw [hpl]
  rw [← hio₂, ← hout]
  refine ⟨r.toNat, _, _, hprep, hr₂, ?_⟩
  split_ifs with hsh
  · rw [le_def, hskip] at hsh
    refine .inl ⟨_, rfl, ?_, .inr hsh⟩
    rw [hwr, Nat.sub_eq_zero_of_le hsh, Nat.zero_min, memcpy_zero]
  · rw [le_def, hskip] at hsh
    have hnat : (nbytes out.2 (skip dev io.cur) left).toNat =
        min (out.2.toNat - io.cur.addr % dev.bs) left.toNat := by
      rw [toNat_nbytes (by omega), hskip]
    refine .inr ⟨_, _, rfl, by omega, hnat, ?_, ?_⟩
    · rw [hout, hio₂]
      rfl
    · rw [hnat]
      exact hwr

theorem blockWriteLoop_zero :
    blockWriteLoop dev answer buffer fuel io 0 count = .done io buffer count := by
  cases fuel <;> rw [blockWriteLoop, if_pos rfl]

/-! ### The loop -/

/-- How the loop ends that starts at the byte `place` of the device: everything is on the device, or
a part of it is. -/
inductive LoopWrites (place : Nat) (io : IoState w) (buffer : Nat → Byte) (left count : BitVec w) :
    Result w → Prop
  | done {io' : IoState w} (hcur : io'.cur = { io.cur with filePos := io.cur.filePos + left })
      (hdevice : io'.device = memcpy io.device place buffer count.toNat left.toNat) :
      LoopWrites place io buffer left count (.done io' buffer (count + left))
  | eio {io' : IoState w} {m : Nat} (hm : m ≤ left.toNat)
      (hdevice : io'.device = memcpy io.device place buffer count.toNat m) :
      LoopWrites place io buffer left count (.eio io' buffer)

theorem loopWrites_zero (place : Nat) (io : IoState w) (buffer : Nat → Byte) (count : BitVec w) :
    LoopWrites place io buffer 0 count (.done io buffer count) := by
  have hcur : io.cur = { io.cur with filePos := io.cur.filePos + 0 } := by simp
  have hdone : LoopWrites place io buffer 0 count (.done io buffer (count + 0)) :=
    .done hcur (by simp)
  simpa using hdone

theorem LoopWrites.step {place : Nat} {io₁ : IoState w} {n : BitVec w} {r : Result w}
    (hat : At dev place io.cur left count) (hn : n.toNat ≤ left.toNat)
    (hcur : io₁.cur = { io.cur with filePos := io.cur.filePos + n })
    (hdevice : io₁.device = memcpy io.device place buffer count.toNat n.toNat)
    (h : LoopWrites (place + n.toNat) io₁ buffer (left - n) (count + n) r) :
    LoopWrites place io buffer left count r := by
  have hleft : (left - n).toNat = left.toNat - n.toNat := toNat_sub_of_le hn
  have hsum : n + (left - n) = left := (BitVec.add_comm _ _).trans (BitVec.sub_add_cancel left n)
  cases h with
  | done hcur' hdevice' =>
    rw [add_assoc, hsum]
    refine .done ?_ ?_
    · rw [hcur', hcur, add_assoc, hsum]
    · rw [hdevice', hdevice, hat.toNat_add hn, memcpy_memcpy, hleft, Nat.add_sub_cancel' hn]
  | @eio _ m hm hdevice' =>
    refine .eio (m := n.toNat + m) (by omega) ?_
    rw [hdevice', hdevice, hat.toNat_add hn, memcpy_memcpy]

theorem blockWriteLoop_writes (answer : Nat → Nat) (buffer : Nat → Byte) : ∀ (fuel : Nat)
    (left : BitVec w), left.toNat ≤ fuel → ∀ {place io count}, At dev place io.cur left count →
    LoopWrites place io buffer left count
      (blockWriteLoop dev answer buffer fuel io left count) := by
  refine rounds (fun fuel place io count _ => ?_) fun fuel left hpos ih place io count hat => ?_
  · rw [blockWriteLoop_zero]
    exact loopWrites_zero place io buffer count
  obtain ⟨r₁, r₂, k, -, -, ⟨io', hloop, hdevice, -⟩ |
    ⟨io₁, n, hloop, hlong, hn, hcur, hdevice⟩⟩ := blockWriteLoop_round answer hat.inside hpos
  · rw [hloop]
    refine .eio (Nat.zero_le _) ?_
    rw [memcpy_zero]
    exact hdevice
  · rw [hloop]
    rw [hat.addr hpos] at hdevice
    have hle : n.toNat ≤ left.toNat := by omega
    refine LoopWrites.step hat hle hcur hdevice (ih n (by omega) hle ?_)
    rw [hcur]
    exact hat.advance hpos hle

/-! ### `block_write` -/

/-- Reading the range gives the bytes of `buffer`, or the driver does not get on. -/
def ReadsBack (dev : BlockDev w) (io : IoState w) (buffer : Nat → Byte) (length : BitVec w) :
    Prop :=
  ∀ (answer : Nat → Nat) (into : Nat → Byte),
    (∃ io' into', blockRead dev answer io into length = .done io' into' length ∧
      ∀ i < length.toNat, into' i = buffer i) ∨
    ∃ io' into', blockRead dev answer io into length = .eio io' into'

/-- What has to hold of `block_write`, however it ends. -/
inductive WriteRight (dev : BlockDev w) (io : IoState w) (buffer : Nat → Byte)
    (length : BitVec w) : Result w → Prop
  | done {io' : IoState w}
      (hcur : io'.cur = { io.cur with filePos := io.cur.filePos + length })
      (hrange : ∀ i < length.toNat, io'.device (io.cur.start + i) = buffer i)
      (hother : ∀ x, x < io.cur.start ∨ io.cur.start + length.toNat ≤ x →
        io'.device x = io.device x)
      -- The file position is set back for reading.
      (hback : ReadsBack dev { io' with cur := io.cur } buffer length) :
      WriteRight dev io buffer length (.done io' buffer length)
  | eio {io' : IoState w} (hother : ∀ x, x < io.cur.start ∨ io.cur.start + length.toNat ≤ x →
        io'.device x = io.device x) :
      WriteRight dev io buffer length (.eio io' buffer)
  | assertFailed (hassert : ¬ (length ≤ io.cur.size ∧ length > 0)) :
      WriteRight dev io buffer length .assertFailed

theorem memcpy_other {x : Nat} (hx : x < off ∨ off + n ≤ x) :
    memcpy dst off src start n x = dst x := by
  exact if_neg (by omega)

theorem memcpy_apply {i : Nat} (hi : i < n) :
    memcpy dst off src start n (off + i) = src (start + i) := by
  simp only [memcpy]
  rw [if_pos (by omega), Nat.add_sub_cancel_left]

variable {length : BitVec w}

theorem readsBack (hin : Inside dev io.cur length)
    (hassert : length ≤ io.cur.size ∧ length > 0) (hfits : io.cur.start + length.toNat ≤ 2 ^ w)
    (hrange : ∀ i < length.toNat, io.device (io.cur.start + i) = buffer i) :
    ReadsBack dev io buffer length := by
  intro answer into
  have hread : ReadRight dev io into length (blockRead dev answer io into length) :=
    blockRead_right hin (le_def.mp hassert.1) hfits
  generalize blockRead dev answer io into length = r at hread ⊢
  cases hread with
  | done =>
    refine .inl ⟨_, _, rfl, fun i hi => ?_⟩
    have hcop : memcpy into 0 io.device io.cur.start length.toNat (0 + i) =
        io.device (io.cur.start + i) := memcpy_apply hi
    rwa [zero_add, hrange i hi] at hcop
  | eio => exact .inr ⟨_, _, rfl⟩
  | assertFailed hzero =>
    rw [hzero] at hassert
    exact absurd hassert.2 (BitVec.lt_irrefl _)

theorem blockWrite_right (hin : Inside dev io.cur length)
    (hfits : io.cur.start + length.toNat ≤ 2 ^ w) :
    WriteRight dev io buffer length (blockWrite dev answer io buffer length) := by
  rw [blockWrite]
  split_ifs with hassert
  · have hloop : LoopWrites io.cur.start io buffer length 0
        (blockWriteLoop dev answer buffer length.toNat io length 0) :=
      blockWriteLoop_writes answer buffer length.toNat length (Nat.le_refl _) (at_start hin hfits)
    generalize blockWriteLoop dev answer buffer length.toNat io length 0 = r at hloop ⊢
    cases hloop with
    | @done io' hcur hdevice =>
      have hcnt : (0 : BitVec w) + length = length := BitVec.zero_add length
      simp only [assertCount, hcnt, if_true]
      have hrange : ∀ i < length.toNat, io'.device (io.cur.start + i) = buffer i := by
        intro i hi
        rw [hdevice, memcpy_apply hi]
        simp
      refine .done hcur hrange (fun x hx => ?_) (readsBack hin hassert hfits hrange)
      rw [hdevice, memcpy_other hx]
    | eio hm hdevice =>
      refine .eio fun x hx => ?_
      rw [hdevice, memcpy_other (by omega)]
  · exact .assertFailed hassert

/-! ### Regions that go beyond 2^w -/

theorem memcpy_ones {x : Nat} (h : dst x = 1) : memcpy dst off (fun _ => 1) start n x = 1 := by
  simp [memcpy, h]

theorem prepared_one_block {r : Nat} (hin : Inside dev io.cur left) (hpos : 0 < left.toNat)
    (h : Prepared dev (fun _ => dev.bs) io left r) : dev.bs ≤ r := by
  have hreq := hin.bs_le_request hpos
  rcases h with rfl | ⟨k, rfl⟩
  · exact hreq
  · rw [hin.one_block hpos hreq, Nat.div_self dev.bs_pos, one_mul]

/-- With a driver that transfers a block each time, the first byte beyond 2^w is written at the
start of the device. The bytes written are all ones. -/
theorem blockWriteLoop_wraps : ∀ (fuel : Nat) (left : BitVec w), left.toNat ≤ fuel →
    ∀ {place io} (count : BitVec w), Inside dev io.cur left → io.cur.addr = place % 2 ^ w →
    ∃ io' count', blockWriteLoop dev (fun _ => dev.bs) (fun _ => 1) fuel io left count =
        .done io' (fun _ => 1) count' ∧
      (∀ x, io.device x = 1 → io'.device x = 1) ∧
      (0 < left.toNat → 2 ^ w < place + left.toNat →
        io'.device (max place (2 ^ w) % 2 ^ w) = 1) := by
  refine rounds (fun fuel place io count _ _ => ?_)
    fun fuel left hpos ih place io count hin hpl => ?_
  · rw [blockWriteLoop_zero]
    exact ⟨io, count, rfl, fun _ h => h, fun hpos => absurd hpos (by simp)⟩
  have hskip : io.cur.addr % dev.bs < dev.bs := Nat.mod_lt _ dev.bs_pos
  obtain ⟨r₁, r₂, k, hprep, hr₂, hrd⟩ := blockWriteLoop_round (fun _ => dev.bs) hin hpos
  have hr₁ : dev.bs ≤ r₁ := prepared_one_block hin hpos hprep
  rw [hin.one_block hpos hr₁] at hr₂
  rcases hrd with ⟨-, -, -, hsh⟩ | ⟨io₁, n, hloop, -, hn, hcur, hdevice⟩
  · omega
  rw [hr₂] at hn
  have hle : n.toNat ≤ left.toNat := by omega
  rw [hloop]
  obtain ⟨io', count', hrest, hones, hwr⟩ :=
    ih n (by omega) hle (count + n) (hcur ▸ hin.advance hle) (addr_next hpl hcur)
  refine ⟨io', count', hrest, fun x hx => hones x ?_, fun _ hwrap => ?_⟩
  · rw [hdevice]
    exact memcpy_ones hx
  by_cases hbey : 2 ^ w ≤ place
  · -- This round writes the first byte beyond 2^w.
    refine hones _ ?_
    have hwri : memcpy io.device io.cur.addr (fun _ => 1) count.toNat n.toNat
        (io.cur.addr + 0) = 1 := memcpy_apply (by omega)
    rw [hdevice, max_eq_left hbey, ← hpl]
    exact hwri
  · rw [hpl] at hn
    obtain ⟨hmore, hwrap', hnext⟩ := one_block_next (not_le.mp hbey) hn hwrap
    exact hnext ▸ hwr hmore hwrap'

/-- **`block_write` changes what it is asked to** for every driver, and nothing else, exactly where
the bytes lie below 2^w on the device. The lengths that the code asserts are those from 1 to the
size of the region. -/
theorem block_write_right_iff {offset regionLength : BitVec w} {cur₀ : BlockDevState w}
    (hopen : blockOpen dev offset regionLength = some cur₀) {filePos length : BitVec w}
    (hdevice : offset.toNat + filePos.toNat + length.toNat ≤ dev.blocks * dev.bs) :
    (∀ (answer : Nat → Nat) (io : IoState w) (buffer : Nat → Byte),
      io.cur = { cur₀ with filePos := filePos } →
      WriteRight dev io buffer length (blockWrite dev answer io buffer length)) ↔
    ¬ (length ≤ regionLength ∧ length > 0) ∨
      offset.toNat + filePos.toNat + length.toNat ≤ 2 ^ w := by
  obtain ⟨hal, hsize, rfl⟩ := blockOpen_eq_some hopen
  constructor
  · intro hall
    by_contra hnot
    obtain ⟨hassert, -⟩ := not_or.mp hnot
    rw [not_not] at hassert
    have hpos : 0 < length.toNat := by simpa using lt_def.mp hassert.2
    -- One block each time, a device of zeros and a buffer of ones.
    obtain ⟨io, hcur, hzer⟩ : ∃ io : IoState w,
        io.cur = { base := offset, filePos, size := regionLength } ∧ ∀ x, io.device x = 0 :=
      ⟨⟨_, fun _ => 0, fun _ => 0, []⟩, rfl, fun _ => rfl⟩
    have hstt : io.cur.start = offset.toNat + filePos.toNat := by
      rw [BlockDevState.start, hcur]
    have hin : Inside dev io.cur length := by
      rw [hcur]
      exact inside_of_le hal hsize (le_def.mp hassert.1) hdevice
    have hassert' : length ≤ io.cur.size ∧ length > 0 := by rwa [hcur]
    obtain ⟨io', count', hloop, -, hwr⟩ :=
      blockWriteLoop_wraps length.toNat length le_rfl 0 hin addr_eq_mod
    have hone := hwr hpos (by omega)
    rw [wrapped_eq] at hone
    have hrt := hall (fun _ => dev.bs) io (fun _ => 1) hcur
    rw [blockWrite, if_pos hassert', hloop, assertCount] at hrt
    split_ifs at hrt with hcnt
    · cases hrt with
      | done _ _ hother =>
        have hzero := hother (io.cur.start - 2 ^ w) (by omega)
        rw [hzer, hone] at hzero
        cases hzero
    · cases hrt with
      | assertFailed hno => exact hno hassert'
  · rintro hcond answer io buffer hcur
    by_cases hassert : length ≤ regionLength ∧ length > 0
    · refine blockWrite_right ?_ ?_
      · rw [hcur]
        exact inside_of_le hal hsize (le_def.mp hassert.1) hdevice
      · rw [BlockDevState.start, hcur]
        exact hcond.resolve_left (not_not.mpr hassert)
    · have hassert' : ¬ (length ≤ io.cur.size ∧ length > 0) := by rwa [hcur]
      rw [blockWrite, if_neg hassert']
      exact .assertFailed hassert'

/-- 1 KiB is written, from the end of a region of 4 KiB on, by a driver that does not keep to
blocks. -/
theorem block_write_right_card :
    WriteRight card ⟨⟨0x40000000, 4000, 0x1000⟩, cardContent, fun _ => 0, []⟩ (fun _ => 2) 1024
      (blockWrite card (fun k => 700 + k) ⟨⟨0x40000000, 4000, 0x1000⟩, cardContent, fun _ => 0, []⟩
        (fun _ => 2) 1024) := by
  have hopen : blockOpen card 0x40000000 0x1000 = some ⟨0x40000000, 0, 0x1000⟩ := by decide
  have hdevice : (0x40000000 : BitVec 32).toNat + (4000 : BitVec 32).toNat +
      (1024 : BitVec 32).toNat ≤ card.blocks * card.bs := by decide
  exact (block_write_right_iff hopen hdevice).mpr (.inr (by decide)) (fun k => 700 + k) _ _ rfl

/-- The second half of the region is written to the start of the card. -/
theorem write_wraps_at_4GiB : blockOpen card 0xFFFFFE00 0x400 = some acrossRegion.cur ∧
    ∃ io' buffer', blockWrite card (fun _ => 512) acrossRegion (fun _ => 2) 0x400 =
        .done io' buffer' 0x400 ∧
      acrossRegion.device 0 = 0 ∧ io'.device 0 = 2 ∧
      io'.device (acrossRegion.cur.start + 512) = 1 := by
  refine ⟨by decide, ?_⟩
  have hdone : (blockWrite card (fun _ => 512) acrossRegion (fun _ => 2) 0x400).isDone
      (fun io' _ count => io'.device 0 = 2 ∧ io'.device (acrossRegion.cur.start + 512) = 1 ∧
        count = 0x400) = true := by decide +kernel
  obtain ⟨io', buffer', count, hrun, hend⟩ := Result.isDone_eq_true hdone
  obtain ⟨hzero, hlost, rfl⟩ := of_decide_eq_true hend
  exact ⟨io', buffer', hrun, by decide, hzero, hlost⟩

end TrustedFirmware.Io.Block
