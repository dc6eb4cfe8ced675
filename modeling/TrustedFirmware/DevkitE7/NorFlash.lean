import Mathlib.Data.BitVec
import TrustedFirmware.Lib.NorCells

/-!
# Programming the NOR flash from the staging area

`norflash_ospi_setup.c`, with the transfers of `ospi_drv.c`. A header in MRAM asks for a copy to the
flash; the code erases sectors, programs pages, and clears the magic word of the header when it is
through.

The controller sends what the code has pushed as one transfer, and the flash carries it out: a
sector erase or a page program needs a write enable before. What the flash answers to reads of its
status register is part of the environment, and so is a loss of power, which comes before one of the
operations on the flash. `Except.error` has the state in which the power is lost.
-/

namespace TrustedFirmware.DevkitE7.NorFlash

open Lib.NorCells List BitVec

abbrev Word := BitVec 32
abbrev Byte := BitVec 8

/-! ### The flash -/

/-- `OSPI_SECTOR_SIZE`. -/
def ospiSectorSize : Nat := 0x10000

/-- `OSPI_PAGE_SIZE`. -/
def ospiPageSize : Nat := 256

/-- What the flash holds, by its own addresses. -/
abbrev Content := Word → Byte

/-- An operation on the flash. -/
inductive FlashOp
  | erase (addr : Word)
  | program (addr : Word) (data : List Byte)
  deriving DecidableEq

/-- A sector erase acts on the sector of the address. A page program puts the data in the page of
the address, from the address on, and goes on at the start of the page. -/
def FlashOp.act : FlashOp → Word → Act Byte
  | .erase addr, a =>
    if a.toNat / ospiSectorSize = addr.toNat / ospiSectorSize then .erase else .keep
  | .program addr data, a =>
    if a.toNat / ospiPageSize = addr.toNat / ospiPageSize then
      match data[(a.toNat + ospiPageSize - addr.toNat % ospiPageSize) % ospiPageSize]? with
      | some d => .program d
      | none => .keep
    else .keep

/-- What a list of operations does. -/
def applyAll (ops : List FlashOp) (flash : Content) : Content := fun a =>
  cell (· &&& ·) 0xFF (ops.map (·.act a)) (flash a)

theorem applyAll_append (ops ops' : List FlashOp) (flash : Content) :
    applyAll (ops ++ ops') flash = applyAll ops' (applyAll ops flash) := by
  funext a
  simp [applyAll]

/-! ### Transfers -/

/-- `ADDR_LENGTH_0_BITS` and `ADDR_LENGTH_32_BITS`. -/
inductive AddrLength
  | bits0
  | bits32
  deriving DecidableEq

/-- `ISSI_WRITE_ENABLE`. -/
def issiWriteEnable : Word := 0x06
/-- `ISSI_4BYTE_SECTOR_ERASE`. -/
def issi4byteSectorErase : Word := 0xDC
/-- `ISSI_OPI_PAGE_PROGRAM`. -/
def issiOpiPageProgram : Word := 0x12
/-- `ISSI_RESET_ENABLE`. -/
def issiResetEnable : Word := 0x66
/-- `ISSI_RESET_MEMORY`. -/
def issiResetMemory : Word := 0x99

/-- The controller and the flash. -/
structure Ospi where
  flash : Content
  /-- The write enable latch of the flash. -/
  writeEnable : Bool
  addrLength : AddrLength
  /-- What has been pushed. -/
  txFifo : List Word
  /-- How often the status register has been read. -/
  polls : Nat
  /-- The operations on the flash so far. -/
  log : List FlashOp
  /-- How often the code has given up waiting for one. -/
  timeouts : Nat

/-- What the flash answers, and the number of operations after which power is lost. -/
structure Env where
  statusReg : Nat → Byte
  powerLoss : Option Nat

/-- The bytes of a frame of 16 bits, in the order of transfer. -/
def frameBytes (frame : Word) : List Byte := [frame.setWidth 8, (frame >>> 8).setWidth 8]

/-- The operation that a transfer asks for. -/
def decode : AddrLength → List Word → Option FlashOp
  | .bits32, [cmd, addr] => if cmd = issi4byteSectorErase then some (.erase addr) else none
  | .bits32, cmd :: addr :: frames =>
    if cmd = issiOpiPageProgram then some (.program addr (frames.flatMap frameBytes)) else none
  | _, _ => none

/-- The write enable latch after a transfer that is no operation. -/
def latch (writeEnable : Bool) (words : List Word) : Bool :=
  if words = [issiWriteEnable] then true
  else if words = [issiResetMemory] then false
  else writeEnable

/-- `ospi_setup_write_ddr16`. -/
def ospiSetupWriteDdr16 (s : Ospi) (addrLen : AddrLength) : Ospi :=
  { s with addrLength := addrLen, txFifo := [] }

/-- `ospi_push`. -/
def ospiPush (s : Ospi) (data : Word) : Ospi := { s with txFifo := s.txFifo ++ [data] }

/-- `ospi_send`. -/
def ospiSend (env : Env) (s : Ospi) (data : Word) : Except Ospi Ospi :=
  let words := s.txFifo ++ [data]
  match decode s.addrLength words with
  | none => .ok { s with txFifo := [], writeEnable := latch s.writeEnable words }
  | some op =>
    if s.writeEnable then
      if env.powerLoss = some s.log.length then .error s
      else .ok { s with
        flash := applyAll [op] s.flash
        writeEnable := false
        txFifo := []
        log := s.log ++ [op] }
    else .ok { s with txFifo := [] }

/-! ### Erasing and programming -/

/-- `ospi_write_en_ddr16`. -/
def ospiWriteEnDdr16 (env : Env) (s : Ospi) : Except Ospi Ospi :=
  ospiSend env (ospiSetupWriteDdr16 s .bits0) issiWriteEnable

/-- `issi_read_status`. -/
def issiReadStatus (env : Env) (s : Ospi) : Ospi × Byte :=
  ({ s with addrLength := .bits0, txFifo := [], polls := s.polls + 1 }, env.statusReg s.polls)

/-- `issi_wait_erase` and `issi_wait_program`, which differ in the number of polls. -/
def issiWait (env : Env) : Nat → Ospi → Ospi × Int
  | 0, s => ({ s with timeouts := s.timeouts + 1 }, -1)
  | timeout + 1, s =>
    let (s, sr) := issiReadStatus env s
    if sr &&& 0x01 = 0 then (s, 0) else issiWait env timeout s

def eraseTimeout : Nat := 2000000
def programTimeout : Nat := 200000

/-- `issi_wait_erase`. -/
def issiWaitErase (env : Env) (s : Ospi) : Ospi × Int := issiWait env eraseTimeout s

/-- `issi_wait_program`. -/
def issiWaitProgram (env : Env) (s : Ospi) : Ospi × Int := issiWait env programTimeout s

/-- `issi_sector_erase_ddr`. -/
def issiSectorEraseDdr (env : Env) (s : Ospi) (addr : Word) : Except Ospi (Ospi × Int) := do
  let s ← ospiWriteEnDdr16 env s
  let s := ospiSetupWriteDdr16 s .bits32
  let s := ospiPush s issi4byteSectorErase
  let s ← ospiSend env s addr
  return issiWaitErase env s

/-- `data[i] | (data[j] << 8)`. -/
def frame (low high : Byte) : Word := low.setWidth 32 ||| (high.setWidth 32 <<< 8)

/-- `issi_page_program_ddr`. -/
def issiPageProgramDdr (env : Env) (mem : Word → Byte) (s : Ospi) (addr data len : Word) :
    Except Ospi (Ospi × Int) :=
  if len = 0 ∨ len.toNat > ospiPageSize then .ok (s, -1)
  else do
    let s ← ospiWriteEnDdr16 env s
    let s := ospiSetupWriteDdr16 s .bits32
    let s := ospiPush s issiOpiPageProgram
    let s := ospiPush s addr
    let frames := (len + 1) / 2
    let s := (range (frames.toNat - 1)).foldl (fun s i =>
      ospiPush s (frame (mem (data + BitVec.ofNat 32 (i * 2)))
        (mem (data + BitVec.ofNat 32 (i * 2 + 1))))) s
    -- The last frame has two bytes, or the last byte alone.
    let s ← ospiSend env s
      (if len &&& 1 ≠ 0 then (mem (data + (len - 1))).setWidth 32
      else frame (mem (data + (len - 2))) (mem (data + (len - 1))))
    return issiWaitProgram env s

/-- `if (..) goto reset_flash;` after a call. -/
def andThen (r : Except Ospi (Ospi × Int)) (next : Ospi → Except Ospi (Ospi × Int)) :
    Except Ospi (Ospi × Int) :=
  match r with
  | .error s => .error s
  | .ok (s, rc) => if rc ≠ 0 then .ok (s, rc) else next s

/-- The loop over the sectors, with `i` and the number of sectors that are left. -/
def eraseSectors (env : Env) (flashDest : Word) : Word → Nat → Ospi → Except Ospi (Ospi × Int)
  | _, 0, s => .ok (s, 0)
  | i, left + 1, s =>
    andThen (issiSectorEraseDdr env s (flashDest + i * 0x10000)) fun s =>
      eraseSectors env flashDest (i + 1) left s

/-- The loop over the pages. Every round programs at least one byte, so that `remaining` is enough
fuel. -/
def programPages (env : Env) (mem : Word → Byte) :
    Nat → Word → Word → Word → Ospi → Except Ospi (Ospi × Int)
  | 0, _, _, _, s => .ok (s, 0)
  | fuel + 1, flashDest, src, remaining, s =>
    if remaining = 0 then .ok (s, 0)
    else
      let chunk : Word := if remaining.toNat > ospiPageSize then 256 else remaining
      andThen (issiPageProgramDdr env mem s flashDest src chunk) fun s =>
        programPages env mem fuel (flashDest + chunk) (src + chunk) (remaining - chunk) s

/-! ### The staging area -/

/-- `OSPI_PROG_MAGIC`. -/
def ospiProgMagic : Word := 0x4F535049

/-- `struct ospi_prog_hdr`. -/
structure OspiProgHdr where
  magic : Word
  destAddr : Word
  length : Word
  srcAddr : Word
  deriving DecidableEq

/-- The header in MRAM, and the flash with its controller. -/
structure Board where
  hdr : OspiProgHdr
  ospi : Ospi

/-- `flash_dest`. -/
def OspiProgHdr.flashDest (hdr : OspiProgHdr) : Word := hdr.destAddr - 0xC0000000

/-- `sectors`. -/
def OspiProgHdr.sectors (hdr : OspiProgHdr) : Word := (hdr.length + 0x10000 - 1) / 0x10000

/-- From the label `reset_flash` on. -/
def resetFlash (env : Env) (b : Board) : Except Board (Board × Int) :=
  match (do
    let s ← ospiSend env (ospiSetupWriteDdr16 b.ospi .bits0) issiResetEnable
    ospiSend env (ospiSetupWriteDdr16 s .bits0) issiResetMemory) with
  | .error s => .error { b with ospi := s }
  | .ok s => .ok ({ b with ospi := s }, 1)

/-- `ospi_program_from_mram`. -/
def ospiProgramFromMram (env : Env) (mem : Word → Byte) (b : Board) :
    Except Board (Board × Int) :=
  if b.hdr.magic ≠ ospiProgMagic then .ok (b, 0)
  else
    let result := andThen (eraseSectors env b.hdr.flashDest 0 b.hdr.sectors.toNat b.ospi) fun s =>
      programPages env mem b.hdr.length.toNat b.hdr.flashDest b.hdr.srcAddr b.hdr.length s
    match result with
    | .error s => .error { b with ospi := s }
    | .ok (s, rc) =>
      if rc ≠ 0 then resetFlash env { b with ospi := s }
      else resetFlash env { hdr := { b.hdr with magic := 0 }, ospi := s }

/-! ### What the code asks of the flash -/

/-- The erases of a loop. -/
def eraseOps (flashDest : Word) : Word → Nat → List FlashOp
  | _, 0 => []
  | i, left + 1 => .erase (flashDest + i * 0x10000) :: eraseOps flashDest (i + 1) left

/-- The bytes of a page: those of the source, and a zero after an odd number of them. -/
def pageData (mem : Word → Byte) (src : Word) (len : Nat) : List Byte :=
  (range (2 * ((len + 1) / 2))).map fun j =>
    if j < len then mem (src + BitVec.ofNat 32 j) else 0

/-- The page programs of a loop. -/
def programOps (mem : Word → Byte) : Nat → Word → Word → Word → List FlashOp
  | 0, _, _, _ => []
  | fuel + 1, flashDest, src, remaining =>
    if remaining = 0 then []
    else
      let chunk : Word := if remaining.toNat > ospiPageSize then 256 else remaining
      .program flashDest (pageData mem src chunk.toNat) ::
        programOps mem fuel (flashDest + chunk) (src + chunk) (remaining - chunk)

/-- The operations of a whole run. -/
def OspiProgHdr.operations (hdr : OspiProgHdr) (mem : Word → Byte) : List FlashOp :=
  eraseOps hdr.flashDest 0 hdr.sectors.toNat ++
    programOps mem hdr.length.toNat hdr.flashDest hdr.srcAddr hdr.length

/-- How often the code polls the flash for an operation. -/
def FlashOp.timeout : FlashOp → Nat
  | .erase _ => eraseTimeout
  | .program _ _ => programTimeout

/-- The number of polls after the one that finds the flash ready, for at most `timeout` polls. -/
def pollsUntilReady (statusReg : Nat → Byte) : Nat → Nat → Option Nat
  | _, 0 => none
  | polls, timeout + 1 =>
    if statusReg polls &&& 0x01 = 0 then some (polls + 1)
    else pollsUntilReady statusReg (polls + 1) timeout

/-- The number of polls after a list of operations, all of which are answered in time. -/
def pollsAnswered (statusReg : Nat → Byte) : Nat → List FlashOp → Option Nat
  | polls, [] => some polls
  | polls, op :: ops =>
    (pollsUntilReady statusReg polls op.timeout).bind (pollsAnswered statusReg · ops)

theorem pollsAnswered_append (statusReg : Nat → Byte) (polls : Nat) (ops ops' : List FlashOp) :
    pollsAnswered statusReg polls (ops ++ ops') =
      (pollsAnswered statusReg polls ops).bind (pollsAnswered statusReg · ops') := by
  induction ops generalizing polls with
  | nil => rfl
  | cons op ops ih =>
    simp only [List.cons_append, pollsAnswered, Option.bind_assoc]
    congr 1
    funext p
    exact ih p

/-! ### What a list of operations can end in -/

/-- These operations, and no others, have been done. -/
structure Performs (s s' : Ospi) (ops : List FlashOp) : Prop where
  log : s'.log = s.log ++ ops
  flash : s'.flash = applyAll ops s.flash

theorem Performs.refl (s : Ospi) : Performs s s [] := ⟨(append_nil _).symm, rfl⟩

variable {s : Ospi} {ops ops' : List FlashOp} {env : Env} {r : Except Ospi (Ospi × Int)}
  {mem : Word → Byte}

theorem Performs.trans {s' s'' : Ospi} (h : Performs s s' ops)
    (h' : Performs s' s'' ops') : Performs s s'' (ops ++ ops') where
  log := by rw [h'.log, h.log, List.append_assoc]
  flash := by rw [h'.flash, h.flash, applyAll_append]

/-- How code ends that asks for a list of operations: all of them are done and answered in time; or
the code gives up waiting for one, and leaves it at that; or power is lost before one of them. -/
inductive Does (env : Env) (s : Ospi) (ops : List FlashOp) : Except Ospi (Ospi × Int) → Prop
  | finished {s' : Ospi} (h : Performs s s' ops)
      (hpolls : pollsAnswered env.statusReg s.polls ops = some s'.polls)
      (htimeouts : s'.timeouts = s.timeouts) : Does env s ops (.ok (s', 0))
  | timedOut {s' : Ospi} {k : Nat} (h : Performs s s' (ops.take k))
      (hpolls : pollsAnswered env.statusReg s.polls ops = none)
      (htimeouts : s'.timeouts = s.timeouts + 1) : Does env s ops (.ok (s', -1))
  | lost {s' : Ospi} {k n : Nat} (hloss : env.powerLoss = some n)
      (h : Performs s s' (ops.take k)) : Does env s ops (.error s')

theorem does_nil (env : Env) (s : Ospi) : Does env s [] (.ok (s, 0)) :=
  .finished (Performs.refl s) rfl rfl

theorem Does.andThen
    {next : Ospi → Except Ospi (Ospi × Int)} (h : Does env s ops r)
    (hnext : ∀ s', Does env s' ops' (next s')) :
    Does env s (ops ++ ops') (NorFlash.andThen r next) := by
  cases h with
  | @finished s' h hpolls htimeouts =>
    simp only [NorFlash.andThen, ne_eq, not_true_eq_false, if_false]
    have happ : pollsAnswered env.statusReg s.polls (ops ++ ops') =
        pollsAnswered env.statusReg s'.polls ops' := by
      rw [pollsAnswered_append, hpolls]
      rfl
    have hdoes := hnext s'
    generalize next s' = r at hdoes ⊢
    cases hdoes with
    | @lost _ k n hloss h' =>
      refine .lost (k := ops.length + k) hloss ?_
      rw [take_length_add_append]
      exact h.trans h'
    | finished h' hpolls' htimeouts' =>
      exact .finished (h.trans h') (happ.trans hpolls') (htimeouts'.trans htimeouts)
    | @timedOut _ k h' hpolls' htimeouts' =>
      refine .timedOut (k := ops.length + k) ?_ (happ.trans hpolls')
        (htimeouts'.trans (by rw [htimeouts]))
      rw [take_length_add_append]
      exact h.trans h'
  | @timedOut s' k h hpolls htimeouts =>
    refine .timedOut (k := min k ops.length) ?_ ?_ htimeouts
    · rw [take_append_of_le_length (min_le_right _ _)]
      rwa [take_eq_take_min] at h
    · rw [pollsAnswered_append, hpolls]
      rfl
  | @lost s' k n hloss h =>
    refine .lost (k := min k ops.length) hloss ?_
    rw [take_append_of_le_length (min_le_right _ _)]
    rwa [take_eq_take_min] at h

/-! ### One operation -/

theorem issiWait_ready {timeout polls : Nat} {s : Ospi}
    (h : pollsUntilReady env.statusReg s.polls timeout = some polls) :
    ∃ s', issiWait env timeout s = (s', 0) ∧ s'.flash = s.flash ∧ s'.log = s.log ∧
    s'.timeouts = s.timeouts ∧ s'.polls = polls := by
  induction timeout generalizing s with
  | zero =>
    simp [pollsUntilReady] at h
  | succ timeout ih =>
    simp only [pollsUntilReady] at h
    split_ifs at h with hrdy
    · simp only [issiWait, issiReadStatus, hrdy, if_true]
      exact ⟨_, rfl, rfl, rfl, rfl, Option.some.inj h⟩
    · simp only [issiWait, issiReadStatus, hrdy, if_false]
      exact ih h

theorem issiWait_timeout {timeout : Nat} {s : Ospi}
    (h : pollsUntilReady env.statusReg s.polls timeout = none) :
    ∃ s', issiWait env timeout s = (s', -1) ∧ s'.flash = s.flash ∧ s'.log = s.log ∧
    s'.timeouts = s.timeouts + 1 := by
  induction timeout generalizing s with
  | zero =>
    exact ⟨_, rfl, rfl, rfl, rfl⟩
  | succ timeout ih =>
    simp only [pollsUntilReady] at h
    split at h
    next hrdy => simp at h
    next hrdy =>
      simp only [issiWait, issiReadStatus, hrdy, if_false]
      exact ih h

/-- An operation that the flash accepts, and the wait for it. -/
theorem does_send {data : Word} (op : FlashOp)
    (hop : decode s.addrLength (s.txFifo ++ [data]) = some op) (hena : s.writeEnable = true) :
    Does env s [op] (do
      let s ← ospiSend env s data
      return issiWait env op.timeout s) := by
  by_cases hloss : env.powerLoss = some s.log.length
  · have hsend : ospiSend env s data = .error s := by
      simp [ospiSend, hop, hena, hloss]
    rw [hsend]
    exact .lost (k := 0) hloss (Performs.refl s)
  · obtain ⟨t, hsend, hfls, hlog, htimeouts, hpolls⟩ :
        ∃ t, ospiSend env s data = .ok t ∧ t.flash = applyAll [op] s.flash ∧
          t.log = s.log ++ [op] ∧ t.timeouts = s.timeouts ∧ t.polls = s.polls := by
      simp [ospiSend, hop, hena, hloss]
    rw [hsend]
    show Does env s [op] (.ok (issiWait env op.timeout t))
    cases hrdy : pollsUntilReady env.statusReg t.polls op.timeout with
    | some =>
      obtain ⟨s', hwait, hf, hl, ht, hp⟩ := issiWait_ready hrdy
      rw [hwait]
      refine .finished ⟨hl.trans hlog, hf.trans hfls⟩ ?_ (ht.trans htimeouts)
      simp [pollsAnswered, ← hpolls, hrdy, hp]
    | none =>
      obtain ⟨s', hwait, hf, hl, ht⟩ := issiWait_timeout hrdy
      rw [hwait]
      refine .timedOut (k := 1) ⟨hl.trans hlog, hf.trans hfls⟩ ?_ (by rw [ht, htimeouts])
      simp [pollsAnswered, ← hpolls, hrdy]

theorem Does.of_pushed {writeEnable : Bool} {addrLength : AddrLength}
    {txFifo : List Word} (h : Does env { s with writeEnable, addrLength, txFifo } ops r) :
    Does env s ops r := by
  cases h with
  | finished h hpolls htimeouts => exact .finished ⟨h.log, h.flash⟩ hpolls htimeouts
  | timedOut h hpolls htimeouts => exact .timedOut ⟨h.log, h.flash⟩ hpolls htimeouts
  | lost hloss h => exact .lost hloss ⟨h.log, h.flash⟩

theorem ospiWriteEnDdr16_eq (env : Env) (s : Ospi) : ospiWriteEnDdr16 env s =
      .ok { s with writeEnable := true, addrLength := .bits0, txFifo := [] } := rfl

theorem issiSectorEraseDdr_does (env : Env) (s : Ospi) (addr : Word) :
    Does env s [.erase addr] (issiSectorEraseDdr env s addr) := by
  exact Does.of_pushed (does_send (.erase addr) rfl rfl)

/-! ### The frames of a page -/

@[simp] theorem frameBytes_frame (low high : Byte) : frameBytes (frame low high) = [low, high] := by
  have hlow : (frame low high).setWidth 8 = low := by
    simp [frame]
  have hhigh : (frame low high >>> 8).setWidth 8 = high := by
    ext i hi
    simp [frame, show 8 + i < 32 by omega, hi]
  rw [frameBytes, hlow, hhigh]

@[simp] theorem frameBytes_setWidth (low : Byte) : frameBytes (low.setWidth 32) = [low, 0] := by
  have hfrm : low.setWidth 32 = frame low 0 := by simp [frame]
  rw [hfrm, frameBytes_frame]

theorem foldl_ospiPush {α : Type} (g : α → Word) (l : List α) (s : Ospi) :
    l.foldl (fun s i => ospiPush s (g i)) s = { s with txFifo := s.txFifo ++ l.map g } := by
  induction l generalizing s with
  | nil => simp
  | cons a l ih =>
    rw [foldl_cons, ih]
    simp [ospiPush]

theorem flatMap_range_pairs {α : Type} (g : Nat → α) (n : Nat) :
    (range n).flatMap (fun i => [g (i * 2), g (i * 2 + 1)]) = (range (2 * n)).map g := by
  induction n with
  | zero => rfl
  | succ n ih =>
    rw [range_succ, flatMap_append, ih, show 2 * (n + 1) = 2 * n + 1 + 1 by omega,
      range_succ, range_succ]
    simp [mul_comm]

/-- The frames of a page carry its bytes: full frames, and a last one that has two bytes or one. -/
theorem frames_eq_pageData {src len : Word} (hpos : len ≠ 0) (hlen : len.toNat ≤ ospiPageSize) :
    ((range (((len + 1) / 2).toNat - 1)).map (fun i =>
        frame (mem (src + BitVec.ofNat 32 (i * 2))) (mem (src + BitVec.ofNat 32 (i * 2 + 1)))) ++
      [if len &&& 1 ≠ 0 then (mem (src + (len - 1))).setWidth 32
        else frame (mem (src + (len - 2))) (mem (src + (len - 1)))]).flatMap frameBytes =
      pageData mem src len.toNat := by
  have hpage : ospiPageSize = 256 := rfl
  have hpos' : 0 < len.toNat := Nat.pos_of_ne_zero fun h => hpos (eq_of_toNat_eq h)
  have hone : (1 : Word).toNat = 1 := rfl
  have htwo : (2 : Word).toNat = 2 := rfl
  obtain ⟨m, hm⟩ : ∃ m, (len.toNat + 1) / 2 = m + 1 := ⟨(len.toNat + 1) / 2 - 1, by omega⟩
  have hfrm : ((len + 1) / 2).toNat - 1 = m := by
    rw [toNat_udiv, toNat_add, hone, htwo]
    omega
  have hodd : (len &&& 1 ≠ 0) ↔ len.toNat % 2 = 1 := by
    rw [ne_eq, ← toNat_inj, toNat_and, hone, Nat.and_one_is_mod]
    simp
  rw [pageData, hm, ← flatMap_range_pairs, range_succ, flatMap_append,
    flatMap_append, flatMap_map, hfrm]
  congr 1
  · refine flatMap_congr fun i hi => ?_
    have him : i < m := mem_range.mp hi
    rw [frameBytes_frame, if_pos (by omega), if_pos (by omega)]
  · have hlast : src + (len - 1) = src + BitVec.ofNat 32 (len.toNat - 1) := by
      congr 1
      apply eq_of_toNat_eq
      rw [toNat_sub, toNat_ofNat, hone]
      omega
    simp only [flatMap_cons, flatMap_nil, append_nil]
    by_cases hpar : len.toNat % 2 = 1
    · rw [if_pos (hodd.mpr hpar), frameBytes_setWidth, hlast, if_pos (by omega), if_neg (by omega),
        show len.toNat - 1 = m * 2 by omega]
    · have hpen : src + (len - 2) = src + BitVec.ofNat 32 (len.toNat - 2) := by
        congr 1
        apply eq_of_toNat_eq
        rw [toNat_sub, toNat_ofNat, htwo]
        omega
      rw [if_neg (fun h => hpar (hodd.mp h)), frameBytes_frame, hlast, hpen, if_pos (by omega),
        if_pos (by omega), show len.toNat - 1 = m * 2 + 1 by omega,
        show len.toNat - 2 = m * 2 by omega]

theorem decode_program (addr data : Word) (frames : List Word) :
    decode .bits32 (issiOpiPageProgram :: addr :: (frames ++ [data])) =
      some (.program addr ((frames ++ [data]).flatMap frameBytes)) := by
  cases frames <;> rfl

theorem issiPageProgramDdr_does {addr data len : Word} (hpos : len ≠ 0)
    (hlen : len.toNat ≤ ospiPageSize) :
    Does env s [.program addr (pageData mem data len.toNat)]
      (issiPageProgramDdr env mem s addr data len) := by
  rw [issiPageProgramDdr, if_neg (not_or.mpr ⟨hpos, not_lt.mpr hlen⟩), ospiWriteEnDdr16_eq]
  simp only [bind, Except.bind]
  rw [foldl_ospiPush]
  refine Does.of_pushed (does_send (.program addr (pageData mem data len.toNat)) ?_ rfl)
  rw [← frames_eq_pageData hpos hlen]
  exact decode_program addr _ _

/-! ### The loops -/

theorem eraseSectors_does (env : Env) (flashDest : Word) : ∀ (left : Nat) (i : Word) (s : Ospi),
    Does env s (eraseOps flashDest i left) (eraseSectors env flashDest i left s)
  | 0, _, s => does_nil env s
  | left + 1, i, s =>
    (issiSectorEraseDdr_does env s _).andThen fun s' =>
      eraseSectors_does env flashDest left (i + 1) s'

theorem chunk_bounds {remaining : Word} (h : remaining ≠ 0) :
    (if remaining.toNat > ospiPageSize then 256 else remaining : Word) ≠ 0 ∧
      (if remaining.toNat > ospiPageSize then 256 else remaining : Word).toNat ≤ ospiPageSize := by
  split_ifs with hbig
  · decide
  · exact ⟨h, le_of_not_gt hbig⟩

theorem programPages_does (env : Env) (mem : Word → Byte) :
    ∀ (fuel : Nat) (flashDest src remaining : Word) (s : Ospi),
      Does env s (programOps mem fuel flashDest src remaining)
        (programPages env mem fuel flashDest src remaining s)
  | 0, _, _, _, s => does_nil env s
  | fuel + 1, flashDest, src, remaining, s => by
    rw [programOps, programPages]
    by_cases hzero : remaining = 0
    · rw [if_pos hzero, if_pos hzero]
      exact does_nil env s
    · rw [if_neg hzero, if_neg hzero]
      obtain ⟨hpos, hlen⟩ := chunk_bounds hzero
      exact (issiPageProgramDdr_does hpos hlen).andThen fun s' =>
        programPages_does env mem fuel _ _ _ s'

/-! ### A whole run -/

/-- How `ospi_program_from_mram` ends. -/
inductive Ends (env : Env) (mem : Word → Byte) (b : Board) : Except Board (Board × Int) → Prop
  /-- Nothing is asked for. -/
  | notRequested (hmagic : b.hdr.magic ≠ ospiProgMagic) : Ends env mem b (.ok (b, 0))
  /-- Everything has been done, and the magic word is cleared. -/
  | complete {b' : Board} (hmagic : b.hdr.magic = ospiProgMagic)
      (hhdr : b'.hdr = { b.hdr with magic := 0 })
      (h : Performs b.ospi b'.ospi (b.hdr.operations mem))
      (hpolls : (pollsAnswered env.statusReg b.ospi.polls (b.hdr.operations mem)).isSome = true)
      (htimeouts : b'.ospi.timeouts = b.ospi.timeouts) : Ends env mem b (.ok (b', 1))
  /-- The code has given up waiting. -/
  | timedOut {b' : Board} {k : Nat} (hmagic : b.hdr.magic = ospiProgMagic) (hhdr : b'.hdr = b.hdr)
      (h : Performs b.ospi b'.ospi ((b.hdr.operations mem).take k))
      (hpolls : pollsAnswered env.statusReg b.ospi.polls (b.hdr.operations mem) = none)
      (htimeouts : b'.ospi.timeouts = b.ospi.timeouts + 1) : Ends env mem b (.ok (b', 1))
  /-- Power is lost. -/
  | lost {b' : Board} {k n : Nat} (hmagic : b.hdr.magic = ospiProgMagic) (hhdr : b'.hdr = b.hdr)
      (hloss : env.powerLoss = some n)
      (h : Performs b.ospi b'.ospi ((b.hdr.operations mem).take k)) : Ends env mem b (.error b')

theorem resetFlash_eq (env : Env) (b : Board) :
    ∃ s, resetFlash env b = .ok ({ b with ospi := s }, 1) ∧ s.flash = b.ospi.flash ∧
      s.log = b.ospi.log ∧ s.timeouts = b.ospi.timeouts :=
  ⟨_, rfl, rfl, rfl, rfl⟩

theorem ospiProgramFromMram_ends (env : Env) (mem : Word → Byte) (b : Board) :
    Ends env mem b (ospiProgramFromMram env mem b) := by
  rw [ospiProgramFromMram]
  by_cases hmagic : b.hdr.magic = ospiProgMagic
  · rw [if_neg (by simp [hmagic])]
    have hdoes : Does env b.ospi (b.hdr.operations mem)
        (andThen (eraseSectors env b.hdr.flashDest 0 b.hdr.sectors.toNat b.ospi) fun s =>
          programPages env mem b.hdr.length.toNat b.hdr.flashDest b.hdr.srcAddr b.hdr.length s) :=
      (eraseSectors_does env _ _ _ _).andThen (programPages_does env mem _ _ _ _)
    generalize andThen (eraseSectors env b.hdr.flashDest 0 b.hdr.sectors.toNat b.ospi) _ = r
      at hdoes ⊢
    cases hdoes with
    | @finished s' h hpolls htimeouts =>
      obtain ⟨t, hrs, hfls, hlog, htime⟩ :=
        resetFlash_eq env { hdr := { b.hdr with magic := 0 }, ospi := s' }
      simp only [ne_eq, not_true_eq_false, if_false]
      rw [hrs]
      exact .complete hmagic rfl ⟨hlog.trans h.log, hfls.trans h.flash⟩ (by rw [hpolls]; rfl)
        (htime.trans htimeouts)
    | @timedOut s' k h hpolls htimeouts =>
      obtain ⟨t, hrs, hfls, hlog, htime⟩ := resetFlash_eq env { b with ospi := s' }
      simp only [ne_eq, Int.reduceNeg, Int.reduceEq, not_false_eq_true, if_true]
      rw [hrs]
      exact .timedOut hmagic rfl ⟨hlog.trans h.log, hfls.trans h.flash⟩ hpolls
        (htime.trans htimeouts)
    | lost hloss h => exact .lost hmagic rfl hloss ⟨h.log, h.flash⟩
  · rw [if_pos hmagic]
    exact .notRequested hmagic

end TrustedFirmware.DevkitE7.NorFlash
