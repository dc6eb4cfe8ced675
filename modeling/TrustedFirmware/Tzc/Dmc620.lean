import Mathlib.Algebra.Order.Ring.Nat
import Mathlib.Data.List.Basic

/-!
# Access regions of the DMC-620 TrustZone controller (`tzc_dmc620.c`)

The registers of a region hold the bits 47 to 16 of its first and last address, while the setup
accepts regions of whole 4 KiB; and it counts the instances in eight bits. The commands that
`arm_tzc_dmc620_setup` ends with do not change the registers of a region, and are left out.
-/

namespace TrustedFirmware.Tzc

open List

/-- `tzc_dmc620_acc_addr_data_t`, with the check of `tzc_dmc620_configure_region`. The addresses
have 48 bits. -/
structure AccAddrData where
  regionBase : BitVec 64
  regionTop : BitVec 64
  secAttr : BitVec 32
  base_aligned : 4096 ∣ regionBase.toNat
  top_aligned : 4096 ∣ regionTop.toNat + 1
  base_lt : regionBase.toNat < 2 ^ 48
  top_lt : regionTop.toNat < 2 ^ 48

/-- `tzc_dmc620_config_data_t`, with the number of instances of its `plat_drv_data`. -/
structure ConfigData where
  dmcCount : BitVec 32
  accAddr : List AccAddrData
  -- `dmc_count` is a `uint8_t` also where it is validated.
  dmcCount_pos : 0 < (dmcCount.setWidth 8).toNat
  accAddr_le : accAddr.length ≤ 8

/-- The four registers of a region. -/
structure RegionRegs where
  min3100 : BitVec 32
  min4732 : BitVec 32
  max3100 : BitVec 32
  max4732 : BitVec 32

/-- What is written to the registers of a region. -/
def AccAddrData.regs (d : AccAddrData) : RegionRegs where
  min3100 := (d.regionBase &&& 0xffff0000).setWidth 32 ||| d.secAttr
  min4732 := ((d.regionBase &&& 0xffff00000000) >>> 32).setWidth 32
  max3100 := (d.regionTop &&& 0xffff0000).setWidth 32
  max4732 := ((d.regionTop &&& 0xffff00000000) >>> 32).setWidth 32

/-- The registers of each region of each instance. -/
abbrev Regs := Nat → Nat → RegionRegs

/-- `tzc_dmc620_configure_region`: a loop over the instances, counted in a `uint8_t`. -/
def configureRegion (dmcCount : BitVec 32) (regs : Regs) (region : AccAddrData × Nat) : Regs :=
  fun inst regionNo => if inst < (dmcCount.setWidth 8).toNat ∧ regionNo = region.2
    then region.1.regs else regs inst regionNo

/-- `arm_tzc_dmc620_setup` -/
def setup (cfg : ConfigData) (regs : Regs) : Regs :=
  cfg.accAddr.zipIdx.foldl (configureRegion cfg.dmcCount) regs

/-- The first address that the registers describe. -/
def RegionRegs.first (r : RegionRegs) : Nat :=
  r.min4732.toNat * 2 ^ 32 + r.min3100.toNat / 2 ^ 16 * 2 ^ 16

/-- The last address, at the end of its 64 KiB. -/
def RegionRegs.last (r : RegionRegs) : Nat :=
  r.max4732.toNat * 2 ^ 32 + r.max3100.toNat / 2 ^ 16 * 2 ^ 16 + (2 ^ 16 - 1)

/-- The registers describe the region, with its attribute. -/
structure RegionRegs.Describes (r : RegionRegs) (d : AccAddrData) : Prop where
  first : r.first = d.regionBase.toNat
  last : r.last = d.regionTop.toNat
  attr : r.min3100.toNat % 2 ^ 16 = d.secAttr.toNat

/-- The region is of whole 64 KiB, and the attribute has 16 bits. -/
def AccAddrData.Fits (d : AccAddrData) : Prop :=
  2 ^ 16 ∣ d.regionBase.toNat ∧ 2 ^ 16 ∣ d.regionTop.toNat + 1 ∧ d.secAttr.toNat < 2 ^ 16

theorem toNat_and_field (x : BitVec 64) (k : Nat) :
    x.toNat &&& (2 ^ 16 - 1) <<< k = x.toNat / 2 ^ k % 2 ^ 16 * 2 ^ k := by
  rw [← Nat.and_two_pow_sub_one_eq_mod, ← Nat.shiftRight_eq_div_pow, ← Nat.shiftLeft_eq,
    Nat.shiftLeft_and_distrib]
  refine Nat.eq_of_testBit_eq fun i => ?_
  by_cases hi : k ≤ i <;> simp [hi]

theorem describes_regs {d : AccAddrData} (h : d.Fits) : d.regs.Describes d := by
  obtain ⟨hbase, htop, hattr⟩ := h
  have hlo := d.base_lt
  have hhi := d.top_lt
  have hlow (x : BitVec 64) : ((x &&& 0xffff0000).setWidth 32).toNat =
      x.toNat / 2 ^ 16 % 2 ^ 16 * 2 ^ 16 := by
    have hand : (x &&& 0xffff0000).toNat = _ := toNat_and_field x 16
    rw [BitVec.toNat_setWidth, hand]
    omega
  have hhigh (x : BitVec 64) : (((x &&& 0xffff00000000) >>> 32).setWidth 32).toNat =
      x.toNat / 2 ^ 32 % 2 ^ 16 := by
    have hand : (x &&& 0xffff00000000).toNat = _ := toNat_and_field x 32
    rw [BitVec.toNat_setWidth, BitVec.toNat_ushiftRight, hand, Nat.shiftRight_eq_div_pow]
    omega
  have hmin : d.regs.min3100.toNat =
      d.regionBase.toNat / 2 ^ 16 % 2 ^ 16 * 2 ^ 16 + d.secAttr.toNat := by
    rw [AccAddrData.regs, BitVec.toNat_or, hlow, ← Nat.shiftLeft_eq,
      Nat.shiftLeft_add_eq_or_of_lt hattr]
  refine ⟨?_, ?_, ?_⟩
  · rw [RegionRegs.first, hmin]
    simp only [AccAddrData.regs, hhigh]
    omega
  · rw [RegionRegs.last]
    simp only [AccAddrData.regs, hhigh, hlow]
    omega
  · rw [hmin]
    omega

/-- The loop over the regions, of which `m` have been written. -/
theorem foldl_configureRegion (dmcCount : BitVec 32) (regs : Regs) (l : List AccAddrData)
    (m inst i : Nat) : (l.zipIdx m).foldl (configureRegion dmcCount) regs inst i =
      if inst < (dmcCount.setWidth 8).toNat ∧ m ≤ i then
        (l[i - m]?.map AccAddrData.regs).getD (regs inst i)
      else regs inst i := by
  induction l generalizing m regs with
  | nil => simp
  | cons d l ih =>
    rw [zipIdx_cons, foldl_cons, ih, configureRegion]
    generalize (dmcCount.setWidth 8).toNat = n
    rcases lt_trichotomy i m with hlt | rfl | hlt
    · simp [hlt.ne, hlt.not_ge, show ¬ m + 1 ≤ i by omega]
    · simp
    · obtain ⟨j, rfl⟩ := Nat.exists_eq_add_of_lt hlt
      simp [hlt.ne', hlt.le, show m + j + 1 - m = j + 1 by omega,
        show m + j + 1 - (m + 1) = j by omega, show m + 1 ≤ m + j + 1 by omega]

/-- **The registers describe the regions**, whatever they held, if and only if there are no regions,
or fewer than 256 instances and only regions that fit. -/
theorem regions_described_iff (cfg : ConfigData) :
    (∀ regs inst i d, inst < cfg.dmcCount.toNat → cfg.accAddr[i]? = some d →
      (setup cfg regs inst i).Describes d) ↔
    cfg.accAddr = [] ∨ cfg.dmcCount.toNat < 2 ^ 8 ∧ ∀ d ∈ cfg.accAddr, d.Fits := by
  have hcnt : (cfg.dmcCount.setWidth 8).toNat = cfg.dmcCount.toNat % 2 ^ 8 :=
    BitVec.toNat_setWidth ..
  have hpos := cfg.dmcCount_pos
  constructor
  · intro hall
    rcases eq_or_ne cfg.accAddr [] with hnil | hne
    · exact .inl hnil
    refine .inr ⟨?_, fun d hd => ?_⟩
    · -- The instance 255 is not configured.
      by_contra hge
      obtain ⟨d, l, hl⟩ := exists_cons_of_ne_nil hne
      have hkept (r : RegionRegs) : r.Describes d := by
        have h := hall (fun _ _ => r) 255 0 d (by omega) (by rw [hl]; rfl)
        rwa [setup, foldl_configureRegion, if_neg (by omega)] at h
      cases (hkept ⟨0, 0, 0, 0⟩).last.trans (hkept ⟨0, 0, 0, 1⟩).last.symm
    · obtain ⟨i, hi⟩ := mem_iff_getElem?.mp hd
      obtain ⟨hfirst, hlast, hattr⟩ := hall (fun _ _ => ⟨0, 0, 0, 0⟩) 0 i d (by omega) hi
      rw [AccAddrData.Fits, ← hfirst, ← hlast, ← hattr, RegionRegs.first, RegionRegs.last]
      omega
  · rintro (hnil | ⟨hlt, hall⟩) regs inst i d hinst hd
    · simp [hnil] at hd
    · rw [setup, foldl_configureRegion, if_pos (by omega), Nat.sub_zero, hd]
      exact describes_regs (hall d (mem_of_getElem? hd))

/-- The registers for the second 4 KiB of memory describe the first 64 KiB. -/
theorem neighbours_described : ∃ cfg d regs, cfg.accAddr = [d] ∧ cfg.dmcCount = 1 ∧
    d.regionBase = 0x1000 ∧ d.regionTop = 0x1FFF ∧
    (setup cfg regs 0 0).first = 0 ∧ (setup cfg regs 0 0).last = 0xFFFF :=
  ⟨⟨1, [⟨0x1000, 0x1FFF, 1, by decide, by decide, by decide, by decide⟩], by decide, by decide⟩, _,
    fun _ _ => ⟨0, 0, 0, 0⟩, rfl, rfl, rfl, rfl, by decide, by decide⟩

end TrustedFirmware.Tzc
