import Mathlib.Data.BitVec
import TrustedFirmware.Lib.Bytes
import TrustedFirmware.Lib.Run

/-!
# Finding the partitions in their package (`plat_spm_sp.c`)

The package is a header, a table of entries and the images;
`plat_spm_sp_get_next_address` gives the locations of the next partition and of its
resource description. Nothing has checked the header and the entries, so the code has to
reject those that lead out of the package.

Addresses are 64 bits and their sums wrap around. The memory is what the processor reads,
inside and outside of the package.
-/

namespace TrustedFirmware.Spm.Package

open Lib List

/-- `uintptr_t`, `size_t` and `uint64_t`. -/
abbrev Word := BitVec 64

abbrev Memory := Word → UInt8

/-- A word of a structure. -/
def read64 (mem : Memory) (a : Word) : Word :=
  BitVec.ofNat 64 (leValue ((range 8).map fun i => mem (a + BitVec.ofNat 64 i)))

/-- `PLAT_SP_PACKAGE_BASE` and `PLAT_SP_PACKAGE_SIZE`. -/
structure SpPackage where
  base : Word
  size : Word
  fits : base.toNat + size.toNat ≤ 2 ^ 64

/-- `struct sp_pkg_header`. -/
structure SpPkgHeader where
  version : Word
  numberOfSp : Word

/-- `struct sp_pkg_entry`. -/
structure SpPkgEntry where
  spOffset : Word
  spSize : Word
  rdOffset : Word
  rdSize : Word

variable (pkg : SpPackage) (mem : Memory)

/-- `pkg_header`. -/
def pkgHeader : SpPkgHeader := ⟨read64 mem pkg.base, read64 mem (pkg.base + 8)⟩

/-- `&(entry_list[sp_next])`; the header has 16 bytes and an entry has 32. -/
def entryAt (spNext : BitVec 32) : Word := pkg.base + 16 + 32 * spNext.setWidth 64

/-- `*entry`. -/
def entryOf (spNext : BitVec 32) : SpPkgEntry :=
  let a := entryAt pkg spNext
  ⟨read64 mem a, read64 mem (a + 8), read64 mem (a + 16), read64 mem (a + 24)⟩

/-- `pkg_end`. -/
def pkgEnd : Word := pkg.base + pkg.size - 1

/-- The check of a range, with `pkg_sp_end` or `pkg_rd_end`. -/
def invalidRange (base size : Word) : Prop :=
  base + size - 1 > pkgEnd pkg ∨ base + size - 1 < base
  deriving Decidable

/-- The locations that a call returns, and the index of the entry that it read. -/
structure Found where
  index : BitVec 32
  spBase : Word
  spSize : Word
  rdBase : Word
  rdSize : Word
  deriving DecidableEq

/-- What an entry says. -/
def locate (spNext : BitVec 32) : Found :=
  let entry := entryOf pkg mem spNext
  ⟨spNext, pkg.base + entry.spOffset, entry.spSize, pkg.base + entry.rdOffset, entry.rdSize⟩

/-- `plat_spm_sp_get_next_address`, with the new value of `sp_next`. `none` is a `panic()`, and
the inner `none` is the return value -1. -/
def platSpmSpGetNextAddress (spNext : BitVec 32) : Option (Option Found × BitVec 32) :=
  let header := pkgHeader pkg mem
  if spNext = 0 ∧ header.version ≠ 1 then none
  else if spNext.setWidth 64 ≥ header.numberOfSp then some (none, spNext)
  else
    let found := locate pkg mem spNext
    if invalidRange pkg found.spBase found.spSize then none
    else if invalidRange pkg found.rdBase found.rdSize then none
    else some (some found, spNext + 1)

/-- `sp_next`, and what the calls so far have returned. -/
structure Calls where
  spNext : BitVec 32
  found : List Found

def Calls.init : Calls := ⟨0, []⟩

/-- One more call. -/
def nextCall (s : Calls) (_ : Unit) : Option Calls :=
  (platSpmSpGetNextAddress pkg mem s.spNext).map fun r => ⟨r.2, r.1.toList ++ s.found⟩

/-! ### What has to hold of a location -/

/-- A range is not empty, and it is in the package. -/
structure InPackage (base size : Word) : Prop where
  nonempty : 0 < size.toNat
  base_le : pkg.base.toNat ≤ base.toNat
  end_le : base.toNat + size.toNat ≤ pkg.base.toNat + pkg.size.toNat

/-- The entry that a call read and the two ranges that it returns are in the package. -/
structure Contained (found : Found) : Prop where
  entry : InPackage pkg (entryAt pkg found.index) 32
  sp : InPackage pkg found.spBase found.spSize
  rd : InPackage pkg found.rdBase found.rdSize

/-- The table has the entry in the package, and the offsets of the entry are smaller than the
package. -/
structure EntryTrusted (spNext : BitVec 32) : Prop where
  table : 16 + 32 * (spNext.toNat + 1) ≤ pkg.size.toNat
  spOffset : (entryOf pkg mem spNext).spOffset.toNat < pkg.size.toNat
  rdOffset : (entryOf pkg mem spNext).rdOffset.toNat < pkg.size.toNat

instance (base size : Word) : Decidable (InPackage pkg base size) :=
  decidable_of_iff (0 < size.toNat ∧ pkg.base.toNat ≤ base.toNat ∧
      base.toNat + size.toNat ≤ pkg.base.toNat + pkg.size.toNat)
    ⟨fun h => ⟨h.1, h.2.1, h.2.2⟩, fun h => ⟨h.1, h.2, h.3⟩⟩

instance (found : Found) : Decidable (Contained pkg found) :=
  decidable_of_iff (InPackage pkg (entryAt pkg found.index) 32 ∧
      InPackage pkg found.spBase found.spSize ∧ InPackage pkg found.rdBase found.rdSize)
    ⟨fun h => ⟨h.1, h.2.1, h.2.2⟩, fun h => ⟨h.1, h.2, h.3⟩⟩

instance (spNext : BitVec 32) : Decidable (EntryTrusted pkg mem spNext) :=
  decidable_of_iff (16 + 32 * (spNext.toNat + 1) ≤ pkg.size.toNat ∧
      (entryOf pkg mem spNext).spOffset.toNat < pkg.size.toNat ∧
      (entryOf pkg mem spNext).rdOffset.toNat < pkg.size.toNat)
    ⟨fun h => ⟨h.1, h.2.1, h.2.2⟩, fun h => ⟨h.1, h.2, h.3⟩⟩

/-! ### The checks -/

variable {pkg mem} {spNext : BitVec 32}

theorem toNat_pkgEnd (hsize : 0 < pkg.size.toNat) :
    (pkgEnd pkg).toNat = pkg.base.toNat + pkg.size.toNat - 1 := by
  have hfits := pkg.fits
  simp only [pkgEnd, BitVec.toNat_sub, BitVec.toNat_add]
  have hone : (1 : Word).toNat = 1 := rfl
  omega

/-- A range that passes the check, and whose offset is smaller than the package, is in the
package. -/
theorem inPackage_of_valid {offset size : Word} (hoff : offset.toNat < pkg.size.toNat)
    (hval : ¬ invalidRange pkg (pkg.base + offset) size) :
    InPackage pkg (pkg.base + offset) size := by
  have hend := toNat_pkgEnd (show 0 < pkg.size.toNat by omega)
  -- The offset does not wrap around.
  have hbase : (pkg.base + offset).toNat = pkg.base.toNat + offset.toNat := by
    rw [BitVec.toNat_add, Nat.mod_eq_of_lt (by omega)]
  simp only [invalidRange, not_or, gt_iff_lt, BitVec.lt_def, hend] at hval
  generalize pkg.base + offset = base at hval hbase ⊢
  have hlast : (base + size - 1).toNat = (base.toNat + size.toNat + (2 ^ 64 - 1)) % 2 ^ 64 := by
    have hone : (1 : Word).toNat = 1 := rfl
    simp only [BitVec.toNat_sub, BitVec.toNat_add, hone]
    omega
  exact ⟨by omega, by omega, by omega⟩

theorem InPackage.offset_lt {offset size : Word} (h : InPackage pkg (pkg.base + offset) size) :
    offset.toNat < pkg.size.toNat := by
  obtain ⟨hne, hle, hend⟩ := h
  have hadd : (pkg.base + offset).toNat = (pkg.base.toNat + offset.toNat) % 2 ^ 64 :=
    BitVec.toNat_add _ _
  omega

/-- The entry is in the package where the table has it there. -/
theorem inPackage_entryAt_iff :
    InPackage pkg (entryAt pkg spNext) 32 ↔ 16 + 32 * (spNext.toNat + 1) ≤ pkg.size.toNat := by
  have hfits := pkg.fits
  have hwide : (32 * spNext.setWidth 64 : Word).toNat = 32 * spNext.toNat := by
    have h32 : (32 : Word).toNat = 32 := rfl
    rw [BitVec.toNat_mul, BitVec.toNat_setWidth, h32]
    omega
  have hen : (entryAt pkg spNext).toNat = (pkg.base.toNat + 16 + 32 * spNext.toNat) % 2 ^ 64 := by
    rw [entryAt, BitVec.toNat_add, hwide, BitVec.toNat_add]
    have h16 : (16 : Word).toNat = 16 := rfl
    omega
  have h32 : (32 : Word).toNat = 32 := rfl
  constructor
  · rintro ⟨-, hle, hend⟩
    omega
  · intro htable
    exact ⟨by omega, by omega, by omega⟩

/-- What passes both checks is contained exactly where the entry can be trusted. -/
theorem contained_locate_iff
    (hsp : ¬ invalidRange pkg (locate pkg mem spNext).spBase (locate pkg mem spNext).spSize)
    (hrd : ¬ invalidRange pkg (locate pkg mem spNext).rdBase (locate pkg mem spNext).rdSize) :
    Contained pkg (locate pkg mem spNext) ↔ EntryTrusted pkg mem spNext := by
  constructor
  · intro h
    exact ⟨inPackage_entryAt_iff.mp h.entry, h.sp.offset_lt, h.rd.offset_lt⟩
  · intro h
    exact ⟨inPackage_entryAt_iff.mpr h.table, inPackage_of_valid h.spOffset hsp,
      inPackage_of_valid h.rdOffset hrd⟩

/-! ### Any number of calls -/

/-- A location that a call returns is that of the entry at `sp_next`, and it passed both checks. -/
theorem platSpmSpGetNextAddress_found {spNext' : BitVec 32} {found : Found}
    (h : platSpmSpGetNextAddress pkg mem spNext = some (some found, spNext')) :
    found = locate pkg mem spNext ∧
      ¬ invalidRange pkg (locate pkg mem spNext).spBase (locate pkg mem spNext).spSize ∧
      ¬ invalidRange pkg (locate pkg mem spNext).rdBase (locate pkg mem spNext).rdSize := by
  simp only [platSpmSpGetNextAddress] at h
  split at h
  · simp at h
  split at h
  · simp at h
  split at h
  · simp at h
  next hsp =>
  split at h
  · simp at h
  next hrd =>
  simp only [Option.some.injEq, Prod.mk.injEq] at h
  exact ⟨h.1.symm, hsp, hrd⟩

/-- Every location so far is contained exactly where its entry can be trusted. -/
def Judged (pkg : SpPackage) (mem : Memory) (s : Calls) : Prop :=
  ∀ found ∈ s.found, Contained pkg found ↔ EntryTrusted pkg mem found.index

theorem nextCall_judged {s s' : Calls} {e : Unit} (hs : Judged pkg mem s)
    (h : nextCall pkg mem s e = some s') : Judged pkg mem s' := by
  simp only [nextCall, Option.map_eq_some_iff] at h
  obtain ⟨⟨ret, spNext'⟩, hcall, rfl⟩ := h
  refine forall_mem_append.mpr ⟨fun found hnew => ?_, hs⟩
  rw [Option.mem_toList] at hnew
  obtain rfl : ret = some found := hnew
  obtain ⟨rfl, hsp, hrd⟩ := platSpmSpGetNextAddress_found hcall
  exact contained_locate_iff hsp hrd

/-- **Locations stay in the package** exactly where the entry is in the package and its offsets
are smaller than the package, whatever the memory has and however often the code is called. -/
theorem next_address_contained_iff {calls : Nat} {s : Calls}
    (hrun : run (nextCall pkg mem) Calls.init (replicate calls ()) = some s)
    {found : Found} (hfound : found ∈ s.found) :
    Contained pkg found ↔ EntryTrusted pkg mem found.index := by
  have hinit : Judged pkg mem Calls.init := fun found hmem => by simp [Calls.init] at hmem
  exact run_invariant (fun _ _ _ => nextCall_judged) hinit hrun found hfound

/-! ### Two packages -/

/-- A package of 4 MiB. -/
def trustedPackage : SpPackage := ⟨0x6000000, 0x400000, by decide⟩

/-- The words of a package, and zeros after them. -/
def wordsAt (pkg : SpPackage) (words : List Nat) : Memory := fun a =>
  let i := (a - pkg.base).toNat
  UInt8.ofNat ((words[i / 8]?.getD 0) / 256 ^ (i % 8))

/-- One partition of 4 KiB and its resource description. -/
def goodWords : List Nat := [1, 1, 0x1000, 0x1000, 0x2000, 0x800]

/-- The offset of the partition is -4096. -/
def negativeOffset : List Nat := [1, 1, 2 ^ 64 - 0x1000, 0x1000, 0x2000, 0x800]

/-- The partition of a package is found in it. -/
theorem next_address_contained_good :
    Contained trustedPackage ⟨0, 0x6001000, 0x1000, 0x6002000, 0x800⟩ := by
  have hrun : ∃ s, run (nextCall trustedPackage (wordsAt trustedPackage goodWords)) Calls.init
      (replicate 2 ()) = some s ∧ ⟨0, 0x6001000, 0x1000, 0x6002000, 0x800⟩ ∈ s.found := by
    decide +kernel
  obtain ⟨s, hrun, hmem⟩ := hrun
  exact (next_address_contained_iff hrun hmem).mpr (by decide +kernel)

/-- A partition that lies below the package is returned: the offset wraps around, and the check
only looks at the end of the range. -/
theorem partition_below_package :
    ∃ s, run (nextCall trustedPackage (wordsAt trustedPackage negativeOffset)) Calls.init
        (replicate 1 ()) = some s ∧
      (⟨0, 0x5fff000, 0x1000, 0x6002000, 0x800⟩ : Found) ∈ s.found ∧
      ¬ Contained trustedPackage ⟨0, 0x5fff000, 0x1000, 0x6002000, 0x800⟩ := by
  decide +kernel

end TrustedFirmware.Spm.Package
