import TrustedFirmware.Lib.Run
import Mathlib.Data.BitVec

/-!
# Saving and restoring the GICv3 distributor (`gicv3_main.c`)

Nine families of registers are copied to arrays and back, by loops that go on as long as the
hardware has interrupts, while the arrays are made for `TOTAL_SPI_INTR_NUM` of them. A distributor
with all 1024 interrupt lines has more registers than that, and the loops run beyond the arrays.
-/

namespace TrustedFirmware.Gic

open Lib List Function

def minSpiId : Nat := 32
def maxSpiId : Nat := 1019
def totalSpiIntrNum : Nat := maxSpiId - minSpiId + 1

/-- The families of registers that are saved. -/
inductive Reg
  | igroupr | isenabler | ispendr | isactiver | ipriorityr | icfgr | igrpmodr | nsacr | irouter
  deriving DecidableEq, Repr

namespace Reg

/-- A register is for `2 ^ shift` interrupts. -/
def shift : Reg → Nat
  | igroupr | isenabler | ispendr | isactiver | igrpmodr => 5
  | icfgr | nsacr => 4
  | ipriorityr => 2
  | irouter => 0

/-- `GICD_NUM_REGS`: how long the array is. -/
def numRegs (r : Reg) : Nat := (totalSpiIntrNum + 2 ^ r.shift - 1) / 2 ^ r.shift

/-- How many bits an interrupt has in a register. -/
def width (r : Reg) : Nat := if r = irouter then 64 else 32 / 2 ^ r.shift

/-- What a write makes of a register. Ones are set, and zeros do nothing, where the hardware has
another register to clear the bits. -/
def write (r : Reg) (old v : BitVec 64) : BitVec 64 :=
  match r with
  | isenabler | ispendr | isactiver => old ||| v
  | igroupr | ipriorityr | icfgr | igrpmodr | nsacr | irouter => v

end Reg

/-- The distributor: `regs r n` is the `n`th register of a family. -/
structure Dist where
  typer : BitVec 32
  ctlr : BitVec 32
  regs : Reg → Nat → BitVec 64

/-- `gicv3_dist_ctx_t`; the arrays end at `numRegs`. -/
structure DistCtx where
  ctlr : BitVec 32
  arrays : Reg → Nat → BitVec 64

def ctlrRwpBit : BitVec 32 := 1#32 <<< 31
def ctlrEnableBits : BitVec 32 := 1#32 ||| 2#32 ||| 4#32
def ctlrAreBits : BitVec 32 := 1#32 <<< 4 ||| 1#32 <<< 5

/-- `GICD_TYPER.ITLinesNumber`. -/
def Dist.itLinesNumber (d : Dist) : Nat := (d.typer &&& 0x1F#32).toNat

/-- `num_ints`. -/
def Dist.numInts (d : Dist) : Nat := (d.itLinesNumber + 1) <<< 5

/-- `gicd_wait_for_pending_write`: it returns when the hardware has cleared the bit. -/
def waitForPendingWrite (ctlr : BitVec 32) : BitVec 32 := ctlr &&& ~~~ctlrRwpBit

/-- `gicd_read_*`: the register that an interrupt is in. -/
def Dist.read (d : Dist) (r : Reg) (intId : Nat) : BitVec 64 := d.regs r (intId >>> r.shift)

/-- The interrupts that the loops of the two macros go through. -/
def intIds (r : Reg) (numInts : Nat) : List Nat :=
  (range ((numInts - minSpiId + 2 ^ r.shift - 1) / 2 ^ r.shift)).map
    (minSpiId + 2 ^ r.shift * ·)

/-- The index into the array of the context. -/
def index (r : Reg) (intId : Nat) : Nat := (intId - minSpiId) >>> r.shift

/-- An access to the array of the context; `none` is one beyond its end. -/
def access (r : Reg) (intId : Nat) (v : BitVec 64) : Option (BitVec 64) :=
  if index r intId < r.numRegs then some v else none

/-- `SAVE_GICD_REGS`. -/
def saveGicdRegs (d : Dist) (r : Reg) (array : Nat → BitVec 64) : Option (Nat → BitVec 64) :=
  run (fun array intId =>
    (access r intId (d.read r intId)).map (update array (index r intId))) array
    (intIds r d.numInts)

/-- `RESTORE_GICD_REGS`. -/
def restoreGicdRegs (ctx : DistCtx) (numInts : Nat) (r : Reg) (regs : Nat → BitVec 64) :
    Option (Nat → BitVec 64) :=
  run (fun regs intId =>
    (access r intId (r.write (regs (intId >>> r.shift)) (ctx.arrays r (index r intId)))).map
      (update regs (intId >>> r.shift))) regs (intIds r numInts)

/-- `gicv3_distif_save`. -/
def gicv3DistifSave (d : Dist) (ctx : DistCtx) : Option DistCtx :=
  let ctlr := waitForPendingWrite d.ctlr
  (run (fun arrays r => (saveGicdRegs d r (arrays r)).map (update arrays r)) ctx.arrays
    [.igroupr, .isenabler, .ispendr, .isactiver, .ipriorityr, .icfgr, .igrpmodr, .nsacr,
      .irouter]).map (⟨ctlr, ·⟩)

/-- `gicv3_distif_init_restore`; the value that `GICD_CTLR` has while the registers are written
does not matter for them. -/
def gicv3DistifInitRestore (ctx : DistCtx) (d : Dist) : Option Dist :=
  let ctlr := waitForPendingWrite (d.ctlr &&& ~~~ctlrEnableBits)
  let d := { d with ctlr := waitForPendingWrite (ctlr ||| ctlrAreBits) }
  (run (fun regs r => (restoreGicdRegs ctx d.numInts r (regs r)).map (update regs r))
    d.regs [.igroupr, .ipriorityr, .icfgr, .igrpmodr, .nsacr, .irouter, .isenabler, .ispendr,
      .isactiver]).map fun regs => { d with ctlr := waitForPendingWrite ctx.ctlr, regs }

/-! ### What is reproduced -/

/-- What an interrupt has in a family of registers. -/
def Dist.field (d : Dist) (r : Reg) (intId : Nat) : BitVec r.width :=
  (d.read r intId).extractLsb' (intId % 2 ^ r.shift * r.width) r.width

/-- The state has been lost: everything may have changed, but no interrupt is enabled, pending or
active. -/
structure Lost (d lost : Dist) : Prop where
  typer : lost.typer = d.typer
  clear : ∀ n, lost.regs .isenabler n = 0 ∧ lost.regs .ispendr n = 0 ∧ lost.regs .isactiver n = 0

/-- The implemented SPIs are as they were, and so is `GICD_CTLR`, apart from the bit for pending
writes. -/
structure Reproduced (d d' : Dist) : Prop where
  fields : ∀ r intId, minSpiId ≤ intId → intId ≤ maxSpiId → intId < d.numInts →
    d'.field r intId = d.field r intId
  ctlr : d'.ctlr = waitForPendingWrite d.ctlr

variable {d : Dist} {ctx : DistCtx} {r : Reg} {intId : Nat}

theorem index_intId (k : Nat) : index r (minSpiId + 2 ^ r.shift * k) = k := by
  rw [index, Nat.add_sub_cancel_left, Nat.shiftRight_eq_div_pow,
    Nat.mul_div_cancel_left _ (Nat.two_pow_pos _)]

theorem shiftRight_intId (k : Nat) :
    (minSpiId + 2 ^ r.shift * k) >>> r.shift = minSpiId / 2 ^ r.shift + k := by
  rw [Nat.shiftRight_eq_div_pow, Nat.add_mul_div_left _ _ (Nat.two_pow_pos _)]

/-- Every register is gone through once. -/
theorem nodup_intIds {key : Nat → Nat} {c : Nat}
    (hkey : ∀ k, key (minSpiId + 2 ^ r.shift * k) = c + k) (n : Nat) :
    ((intIds r n).map key).Nodup := by
  rw [intIds, map_map]
  refine List.Nodup.map_on (fun j _ k _ hjk => ?_) nodup_range
  simp only [comp, hkey] at hjk
  omega

/-- Every SPI has a register that is gone through. -/
theorem exists_intId (hmin : minSpiId ≤ intId) {n : Nat} (hlt : intId < n) :
    ∃ k, minSpiId + 2 ^ r.shift * k ∈ intIds r n ∧
      intId >>> r.shift = (minSpiId + 2 ^ r.shift * k) >>> r.shift := by
  refine ⟨(intId - minSpiId) / 2 ^ r.shift, mem_map_of_mem (mem_range.mpr ?_), ?_⟩
  · cases r <;> simp only [Reg.shift, minSpiId] at * <;> omega
  · cases r <;> simp only [Reg.shift, minSpiId] at * <;> omega

section

variable (hln : d.itLinesNumber ≤ 30)
include hln

/-- With at most 31 · 32 interrupts the arrays are long enough. -/
theorem access_eq_some (hmem : intId ∈ intIds r d.numInts)
    (v : BitVec 64) : access r intId v = some v := by
  obtain ⟨k, hk, rfl⟩ := mem_map.mp hmem
  rw [access, index_intId, if_pos]
  refine (mem_range.mp hk).trans_le (Nat.div_le_div_right ?_)
  simp only [Dist.numInts, totalSpiIntrNum, maxSpiId, minSpiId]
  omega

theorem saveGicdRegs_spec (r : Reg) (array : Nat → BitVec 64) :
    ∃ array', saveGicdRegs d r array = some array' ∧
      ∀ intId ∈ intIds r d.numInts, array' (index r intId) = d.read r intId := by
  obtain ⟨array', hrun, hin, -⟩ := run_update (k := index r)
    (f := fun intId _ => access r intId (d.read r intId))
    (nodup_intIds (c := 0) (by simp [index_intId]) d.numInts)
    fun intId hmem => access_eq_some hln hmem _
  exact ⟨array', hrun, hin⟩

theorem restoreGicdRegs_spec (ctx : DistCtx) (r : Reg) (regs : Nat → BitVec 64) :
    ∃ regs', restoreGicdRegs ctx d.numInts r regs = some regs' ∧ ∀ intId ∈ intIds r d.numInts,
      regs' (intId >>> r.shift) = r.write (regs (intId >>> r.shift))
        (ctx.arrays r (index r intId)) := by
  obtain ⟨regs', hrun, hin, -⟩ := run_update (k := (· >>> r.shift))
    (f := fun intId old => access r intId (r.write old (ctx.arrays r (index r intId))))
    (nodup_intIds shiftRight_intId d.numInts) fun intId hmem => access_eq_some hln hmem _
  exact ⟨regs', hrun, hin⟩

theorem reproduced_of_lines (ctx : DistCtx) :
    ∃ saved, gicv3DistifSave d ctx = some saved ∧ ∀ lost, Lost d lost →
      ∃ d', gicv3DistifInitRestore saved lost = some d' ∧ Reproduced d d' := by
  choose arrays har hsav using fun r => saveGicdRegs_spec hln r (ctx.arrays r)
  obtain ⟨saved, hsave, hin, -⟩ := run_update
    (l := [.igroupr, .isenabler, .ispendr, .isactiver, .ipriorityr, .icfgr, .igrpmodr, .nsacr,
      .irouter]) (by decide) fun r _ => har r
  refine ⟨_, congrArg (Option.map _) hsave, fun lost hlost => ?_⟩
  have hnum : lost.numInts = d.numInts := by rw [Dist.numInts, Dist.itLinesNumber, hlost.typer]; rfl
  choose regs hregs hwr using fun r =>
    restoreGicdRegs_spec hln ⟨waitForPendingWrite d.ctlr, saved⟩ r (lost.regs r)
  obtain ⟨regs', hres, hin', -⟩ := run_update
    (l := [.igroupr, .ipriorityr, .icfgr, .igrpmodr, .nsacr, .irouter, .isenabler, .ispendr,
      .isactiver]) (by decide) fun r _ => hregs r
  rw [← hnum] at hres
  refine ⟨_, congrArg (Option.map _) hres, fun r intId hmin _ hlt => ?_, ?_⟩
  · obtain ⟨k, hk, hsame⟩ := exists_intId (r := r) hmin hlt
    have hval : regs' r (intId >>> r.shift) = d.regs r (intId >>> r.shift) := by
      have harr : saved r = arrays r := hin r (by cases r <;> decide)
      rw [show regs' r = regs r from hin' r (by cases r <;> decide), hsame, hwr r _ hk]
      simp only [harr, hsav r _ hk]
      cases r <;> simp [Reg.write, Dist.read, hlost.clear]
    simp [Dist.field, Dist.read, hval]
  · simp [waitForPendingWrite, BitVec.and_assoc]

end

theorem mem_intIds_irouter (hln : d.itLinesNumber = 31) : 1020 ∈ intIds .irouter d.numInts :=
  mem_map.mpr ⟨988, by rw [Dist.numInts, hln]; exact mem_range.mpr (by decide), rfl⟩

/-- The routing of interrupt 1020 has no place in the array. -/
theorem save_eq_none (hln : d.itLinesNumber = 31) : gicv3DistifSave d ctx = none := by
  have hnone : ∀ array, saveGicdRegs d .irouter array = none := fun array =>
    run_update_none (f := fun intId _ => access .irouter intId (d.read .irouter intId))
      (mem_intIds_irouter hln) fun _ => if_neg (by decide)
  exact congrArg (Option.map _) (run_update_none (by decide) hnone)

/-- **The distributor is reproduced** exactly if it has at most 992 interrupts. -/
theorem distif_reproduced_iff (d : Dist) :
    (∀ ctx, ∃ saved, gicv3DistifSave d ctx = some saved ∧ ∀ lost, Lost d lost →
      ∃ d', gicv3DistifInitRestore saved lost = some d' ∧ Reproduced d d') ↔
      d.itLinesNumber ≤ 30 := by
  refine ⟨fun h => ?_, reproduced_of_lines⟩
  by_contra hln
  have hle : d.itLinesNumber ≤ 31 := by
    exact Nat.and_le_right
  obtain ⟨saved, hsave, -⟩ := h ⟨0, fun _ _ => 0⟩
  rw [save_eq_none (by omega)] at hsave
  cases hsave

/-- With all interrupt lines, the routing of interrupt 1020 is saved behind the end of the array. -/
theorem save_beyond_array :
    gicv3DistifSave ⟨31, 0, fun _ _ => 0⟩ ⟨0, fun _ _ => 0⟩ = none ∧
      1020 ∈ intIds .irouter (Dist.numInts ⟨31, 0, fun _ _ => 0⟩) ∧
      Reg.irouter.numRegs ≤ index .irouter 1020 :=
  ⟨save_eq_none (by decide), mem_intIds_irouter (by decide), by decide⟩

end TrustedFirmware.Gic
