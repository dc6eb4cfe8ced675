import Mathlib.Data.BitVec

/-!
# Waiting for a number of microseconds (`delay_in_us` of `devkit_e7_plat.c`)

The code reads the system counter again and again, and adds up how far it has come since the reading
before.

The counter itself never goes back. What the code reads is the counter modulo 2^64.
-/

namespace TrustedFirmware.DevkitE7.Delay

open BitVec Nat

/-- `MICRO_UNIT`. -/
def microUnit : Nat := 1000000

/-- `MAX_REFCLK_COUNT`. -/
def maxRefclkCount : BitVec 64 := 0xFFFFFFFFFFFFFFFF

/-- `total_count`: the product is one of 32 bits. -/
def totalCount (delay cntClkFreq : BitVec 32) : BitVec 64 :=
  (delay * BitVec.ofNat 32 (cntClkFreq.toNat / microUnit)).setWidth 64

/-- What a reading adds to `cur_count`. -/
def increment (preTimestamp curTimestamp : BitVec 64) : BitVec 64 :=
  if curTimestamp > preTimestamp then curTimestamp - preTimestamp
  else (maxRefclkCount - preTimestamp) + curTimestamp

/-- The loop of `delay_in_us`, after the reading `i`, with the index of the last reading as its
result. The fuel is the number of readings that are left to it. -/
def delayLoop (readings : Nat → BitVec 64) (total : BitVec 64) :
    Nat → Nat → BitVec 64 → BitVec 64 → Option Nat
  | fuel, i, preTimestamp, curCount =>
    if curCount < total then
      match fuel with
      | 0 => none
      | fuel + 1 =>
        let curTimestamp := readings (i + 1)
        delayLoop readings total fuel (i + 1) curTimestamp
          (curCount + increment preTimestamp curTimestamp)
    else some i

/-- `delay_in_us`. -/
def delayInUs (readings : Nat → BitVec 64) (delay cntClkFreq : BitVec 32) (fuel : Nat) :
    Option Nat :=
  delayLoop readings (totalCount delay cntClkFreq) fuel 0 (readings 0) 0

/-- The system counter at the times of the readings. It does not go back, and it passes a multiple
of 2^64 at most once from one reading to the next. -/
structure SystemCounter where
  value : Nat → Nat
  le_succ : ∀ i, value i ≤ value (i + 1)
  wraps_once : ∀ i, value (i + 1) / 2 ^ 64 ≤ value i / 2 ^ 64 + 1

/-- What is read. -/
def SystemCounter.reading (c : SystemCounter) (i : Nat) : BitVec 64 := BitVec.ofNat 64 (c.value i)

/-! ### What is counted -/

variable {c : SystemCounter}

/-- A reading that differs from the one before adds at most the ticks between the two. -/
theorem toNat_increment_le {i : Nat} (hne : c.reading (i + 1) ≠ c.reading i) :
    (increment (c.reading i) (c.reading (i + 1))).toNat ≤ c.value (i + 1) - c.value i := by
  have hle := c.le_succ i
  have hpre : (c.reading i).toNat = c.value i % 2 ^ 64 := toNat_ofNat _ _
  have hcur : (c.reading (i + 1)).toNat = c.value (i + 1) % 2 ^ 64 := toNat_ofNat _ _
  have hne' : (c.reading (i + 1)).toNat ≠ (c.reading i).toNat := fun h =>
    hne (eq_of_toNat_eq h)
  have hmax : maxRefclkCount.toNat = 2 ^ 64 - 1 := by decide
  rw [increment]
  split_ifs with hgt
  · rw [toNat_sub]
    omega
  · rw [toNat_add, toNat_sub, hmax]
    omega

theorem SystemCounter.value_zero_le (c : SystemCounter) : ∀ i, c.value 0 ≤ c.value i
  | 0 => le_refl _
  | i + 1 => le_trans (c.value_zero_le i) (c.le_succ i)

variable {total : BitVec 64} {last : Nat}

theorem delayLoop_index_le {readings : Nat → BitVec 64} {fuel i : Nat}
    {preTimestamp curCount : BitVec 64}
    (h : delayLoop readings total fuel i preTimestamp curCount = some last) : i ≤ last := by
  induction fuel generalizing i preTimestamp curCount with
  | zero =>
    rw [delayLoop] at h
    split at h
    · simp at h
    · exact le_of_eq (Option.some.inj h)
  | succ fuel ih =>
    rw [delayLoop] at h
    split at h
    · exact le_of_succ_le (ih h)
    · exact le_of_eq (Option.some.inj h)

/-- What has been counted never exceeds the ticks since the first reading, so the loop ends when
at least `total` ticks have passed. -/
theorem delayLoop_waits (htic : ∀ i < last, c.reading (i + 1) ≠ c.reading i) {fuel i : Nat}
    {curCount : BitVec 64} (hcnt : curCount.toNat ≤ c.value i - c.value 0)
    (h : delayLoop c.reading total fuel i (c.reading i) curCount = some last) :
    total.toNat ≤ c.value last - c.value 0 := by
  induction fuel generalizing i curCount with
  | zero =>
    rw [delayLoop] at h
    split at h
    · simp at h
    next hge =>
    obtain rfl : i = last := by simpa using h
    have hle : total.toNat ≤ curCount.toNat := not_lt.mp hge
    exact hle.trans hcnt
  | succ fuel ih =>
    rw [delayLoop] at h
    split at h
    · -- The index only grows, so this reading is one of those that differ.
      have hlast : i < last := delayLoop_index_le h
      have hinc := toNat_increment_le (htic i hlast)
      have hzero := c.value_zero_le i
      have hsucc := c.le_succ i
      have hadd : (curCount + increment (c.reading i) (c.reading (i + 1))).toNat ≤
          c.value (i + 1) - c.value 0 := by
        rw [toNat_add]
        omega
      exact ih hadd h
    next hge =>
    obtain rfl : i = last := by simpa using h
    have hle : total.toNat ≤ curCount.toNat := not_lt.mp hge
    exact hle.trans hcnt

/-! ### The product -/

/-- The delay in ticks. -/
def ticks (delay cntClkFreq : BitVec 32) : Nat := delay.toNat * (cntClkFreq.toNat / microUnit)

/-- The code waits for the ticks modulo 2^32. -/
theorem toNat_totalCount (delay cntClkFreq : BitVec 32) :
    (totalCount delay cntClkFreq).toNat = ticks delay cntClkFreq % 2 ^ 32 := by
  have hdiv : cntClkFreq.toNat / microUnit % 2 ^ 32 = cntClkFreq.toNat / microUnit :=
    mod_eq_of_lt ((div_le_self _ _).trans_lt cntClkFreq.isLt)
  have hlt : ticks delay cntClkFreq % 2 ^ 32 < 2 ^ 64 :=
    (mod_lt _ (by decide)).trans (by decide)
  rw [totalCount, toNat_setWidth, toNat_mul, toNat_ofNat, hdiv]
  exact mod_eq_of_lt hlt

/-- A counter that makes one tick from each reading to the next. -/
def steadyCounter : SystemCounter where
  value i := i
  le_succ i := le_succ i
  wraps_once i := by omega

theorem steadyCounter_ticks {i : Nat} (hi : i + 1 < 2 ^ 64) :
    (steadyCounter.reading (i + 1)).toNat = (steadyCounter.reading i).toNat + 1 := by
  simp only [SystemCounter.reading, steadyCounter, toNat_ofNat]
  omega

/-- With the steady counter the loop ends after `total` readings. -/
theorem delayLoop_steady {fuel i : Nat} (hi : i + fuel = total.toNat) :
    delayLoop steadyCounter.reading total fuel i (steadyCounter.reading i) (BitVec.ofNat 64 i) =
    some total.toNat := by
  induction fuel generalizing i with
  | zero =>
    rw [delayLoop, if_neg, show i = total.toNat by omega]
    rw [lt_def, toNat_ofNat]
    omega
  | succ fuel ih =>
    have hnext : BitVec.ofNat 64 i +
        increment (steadyCounter.reading i) (steadyCounter.reading (i + 1)) =
          BitVec.ofNat 64 (i + 1) := by
      have htick := steadyCounter_ticks (show i + 1 < 2 ^ 64 by omega)
      have hgt : steadyCounter.reading (i + 1) > steadyCounter.reading i := by
        rw [gt_iff_lt, lt_def]
        omega
      rw [increment, if_pos hgt]
      apply eq_of_toNat_eq
      simp only [toNat_add, toNat_sub, toNat_ofNat]
      omega
    rw [delayLoop, if_pos]
    · simp only [hnext]
      exact ih (by omega)
    · rw [lt_def, toNat_ofNat]
      omega

/-- **The delay is waited for** with every counter whose successive readings differ, exactly where
its ticks fit in 32 bits. -/
theorem delay_in_us_waits_iff {delay cntClkFreq : BitVec 32} (_ : microUnit ≤ cntClkFreq.toNat) :
    (∀ (c : SystemCounter) (fuel last : Nat),
      delayInUs c.reading delay cntClkFreq fuel = some last →
      (∀ i < last, c.reading (i + 1) ≠ c.reading i) →
      ticks delay cntClkFreq ≤ c.value last - c.value 0) ↔
    ticks delay cntClkFreq < 2 ^ 32 := by
  have htot := toNat_totalCount delay cntClkFreq
  constructor
  · intro hwai
    -- The steady counter has made no more ticks than the code waits for.
    have hrun : delayInUs steadyCounter.reading delay cntClkFreq
        (totalCount delay cntClkFreq).toNat = some (totalCount delay cntClkFreq).toNat :=
      delayLoop_steady (zero_add _)
    have hwait := hwai steadyCounter _ _ hrun fun i hi heq => by
      have htick := steadyCounter_ticks (i := i) (by omega)
      rw [heq] at htick
      omega
    simp only [steadyCounter] at hwait
    omega
  · intro hfits c fuel last hrun htic
    have hwait := delayLoop_waits htic (zero_le _) hrun
    rwa [htot, mod_eq_of_lt hfits] at hwait

/-- One microsecond at 2 MHz, with the steady counter. -/
theorem delay_in_us_waits_steady :
    delayInUs steadyCounter.reading 1 2000000 2 = some 2 ∧
      ticks 1 2000000 ≤ steadyCounter.value 2 - steadyCounter.value 0 := by
  have hrun : delayInUs steadyCounter.reading 1 2000000 2 = some 2 := by decide +kernel
  exact ⟨hrun, (delay_in_us_waits_iff (by decide)).mpr (by decide) steadyCounter 2 2 hrun
    (by decide +kernel)⟩

/-- A counter that makes one tick from every second reading to the next. -/
def slowCounter : SystemCounter where
  value i := i / 2
  le_succ i := by omega
  wraps_once i := by omega

/-- If the counter has not ticked between the first two readings then the second one is taken for
a wrap, 2^64 - 1 is added, and the delay is over at once. -/
theorem delay_ends_on_equal_readings :
    delayInUs slowCounter.reading 100 100000000 1 = some 1 ∧
      slowCounter.value 1 - slowCounter.value 0 < ticks 100 100000000 := by
  decide +kernel

end TrustedFirmware.DevkitE7.Delay
