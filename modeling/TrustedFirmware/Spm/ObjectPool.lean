import TrustedFirmware.Spm.RdMap

/-!
# Object pools (`object_pool.h`) over any sequence of allocations

A call that panics never returns, so a run is a sequence of calls that have all returned.

`pool_alloc_n` adds the count to what is in use before it compares the sum with the capacity. As
long as the sum is below `2 ^ 64` the pool hands out objects of its own to every caller; a count
for which it is not takes objects back that others still use (`wrapped_count_reuses`).
-/

namespace TrustedFirmware.Spm.ObjectPool

open Lib Lib.Radix Xlat Spm.RdMap
open BitVec

/-- The two ways to ask for objects. -/
inductive Call
  | alloc
  | allocN (count : U64)
  deriving DecidableEq, Repr

def Call.count : Call → U64
  | .alloc => 1
  | .allocN count => count

/-- `pool_alloc` -/
def poolAlloc (pool : RdMap.ObjectPool) : Option (RdMap.ObjectPool × U64) := poolAllocN pool 1

def Call.perform (pool : RdMap.ObjectPool) : Call → Option (RdMap.ObjectPool × U64)
  | .alloc => poolAlloc pool
  | .allocN count => poolAllocN pool count

/-- The address that a call has returned, and the number of objects asked for. -/
structure Allocation where
  obj : U64
  count : U64
  deriving DecidableEq, Repr

/-- The bytes of the objects. -/
def Allocation.range (objSize : U64) (a : Allocation) : Range :=
  ⟨a.obj.toNat, a.obj.toNat + a.count.toNat * objSize.toNat⟩

/-- A pool, and what it has handed out. -/
structure State where
  pool : RdMap.ObjectPool
  allocations : List Allocation

/-- As `OBJECT_POOL` defines it. -/
def State.init (objSize capacity objects : U64) : State :=
  ⟨⟨objSize, capacity, objects, 0, le_def.mpr (Nat.zero_le _)⟩, []⟩

def step (s : State) (c : Call) : Option State :=
  (c.perform s.pool).map fun (pool, obj) => ⟨pool, ⟨obj, c.count⟩ :: s.allocations⟩

/-- The call takes nothing back. -/
def Grows (s : State) (c : Call) : Prop := ∀ s', step s c = some s' → s.pool.used ≤ s'.pool.used

/-- The allocations are objects of the pool, each for one caller. -/
structure Sound (objSize capacity objects : U64) (s : State) : Prop where
  used_le : s.pool.used ≤ capacity
  inside : ∀ a ∈ s.allocations, objects.toNat ≤ (a.range objSize).lo ∧
    (a.range objSize).hi ≤ objects.toNat + capacity.toNat * objSize.toNat
  alone : s.allocations.Pairwise fun a b => (a.range objSize).Apart (b.range objSize)

/-- If the sum passes the comparison with the capacity, it has not wrapped around. -/
def Fits (s : State) (c : Call) : Prop :=
  s.pool.used + c.count ≤ s.pool.capacity → s.pool.used.toNat + c.count.toNat < 2 ^ 64
  deriving Decidable

variable {s s' : State} {c : Call}

theorem Call.perform_eq (pool : RdMap.ObjectPool) (c : Call) :
    c.perform pool = poolAllocN pool c.count := by
  cases c <;> rfl

theorem step_eq_some (h : step s c = some s') :
    ∃ obj, poolAllocN s.pool c.count = some (s'.pool, obj) ∧
      s'.allocations = ⟨obj, c.count⟩ :: s.allocations := by
  obtain ⟨⟨pool, obj⟩, hcall, rfl⟩ := Option.map_eq_some_iff.mp h
  exact ⟨obj, c.perform_eq s.pool ▸ hcall, rfl⟩

/-- A call takes nothing back if its sum does not wrap around. -/
theorem grows_iff_fits : Grows s c ↔ Fits s c := by
  constructor
  · intro h hle
    have hstep : step s c = some ⟨{ s.pool with used := s.pool.used + c.count, used_le := hle },
        ⟨s.pool.objects + s.pool.objSize * s.pool.used, c.count⟩ :: s.allocations⟩ := by
      rw [step, c.perform_eq, poolAllocN, dif_neg (BitVec.not_lt.mpr hle)]
      rfl
    have hused : s.pool.used ≤ s.pool.used + c.count := h _ hstep
    bv_omega
  · intro h s' hstep
    obtain ⟨obj, hcall, -⟩ := step_eq_some hstep
    obtain ⟨-, -, hcap, -, hused⟩ := poolAllocN_eq_some hcall
    have hle := s'.pool.used_le
    rw [hcap, hused] at hle
    have hfits := h hle
    bv_omega

variable {objSize capacity objects : U64}

/-- What is in use is behind all that has been handed out. -/
structure Inv (objSize capacity objects : U64) (s : State) : Prop where
  sizeSame : s.pool.objSize = objSize
  capacitySame : s.pool.capacity = capacity
  objectsSame : s.pool.objects = objects
  inside : ∀ a ∈ s.allocations, objects.toNat ≤ (a.range objSize).lo ∧
    (a.range objSize).hi ≤ objects.toNat + s.pool.used.toNat * objSize.toNat
  alone : s.allocations.Pairwise fun a b => (a.range objSize).Apart (b.range objSize)

theorem Inv.step (hsto : objects.toNat + capacity.toNat * objSize.toNat < 2 ^ 64)
    (h : Inv objSize capacity objects s) (hfits : Fits s c) (hstep : step s c = some s') :
    Inv objSize capacity objects s' := by
  obtain ⟨obj, hcall, hall⟩ := step_eq_some hstep
  obtain ⟨hobj, hsize, hcap, hob, hused⟩ := poolAllocN_eq_some hcall
  have hle := s'.pool.used_le
  rw [hcap, hused] at hle
  have hsum : s'.pool.used.toNat * objSize.toNat =
      s.pool.used.toNat * objSize.toNat + c.count.toNat * objSize.toNat := by
    rw [hused, toNat_add, Nat.mod_eq_of_lt (hfits hle), Nat.add_mul]
  -- the new objects begin where what was in use ends
  have hlo : obj.toNat = objects.toNat + s.pool.used.toNat * objSize.toNat := by
    have hroom : s.pool.used.toNat * objSize.toNat ≤ capacity.toNat * objSize.toNat :=
      Nat.mul_le_mul_right _ (h.capacitySame ▸ le_def.mp s.pool.used_le)
    rw [hobj, h.objectsSame, h.sizeSame, toNat_add, toNat_mul, mul_comm objSize.toNat,
      Nat.mod_eq_of_lt (show s.pool.used.toNat * objSize.toNat < 2 ^ 64 by omega),
      Nat.mod_eq_of_lt (by omega)]
  refine ⟨hsize.trans h.sizeSame, hcap.trans h.capacitySame, hob.trans h.objectsSame, ?_, ?_⟩
  · rw [hall, List.forall_mem_cons]
    refine ⟨?_, fun a ha => ?_⟩
    · simp only [Allocation.range]
      omega
    · have := h.inside a ha
      omega
  · rw [hall]
    refine List.Pairwise.cons (fun a ha => .inr ?_) h.alone
    exact (h.inside a ha).2.trans hlo.ge

/-- **An object pool hands out each object once** exactly if no call gets past the comparison by
wrapping around. The back store ends below `2 ^ 64`, as every object of C does. -/
theorem pool_sound_iff (hstore : objects.toNat + capacity.toNat * objSize.toNat < 2 ^ 64)
    {calls : List Call} (hrun : run step (.init objSize capacity objects) calls = some s) :
    Along step Grows (.init objSize capacity objects) calls ∧ Sound objSize capacity objects s ↔
      Along step Fits (.init objSize capacity objects) calls := by
  have hgr : Grows = Fits := funext₂ fun _ _ => propext grows_iff_fits
  rw [hgr]
  refine ⟨And.left, fun hal => ⟨hal, ?_⟩⟩
  have hinit : Inv objSize capacity objects (.init objSize capacity objects) :=
    ⟨rfl, rfl, rfl, by simp [State.init], .nil⟩
  have h := run_invariant_along (fun _ _ _ h hfits => h.step hstore hfits) hinit hal hrun
  have hused : s.pool.used ≤ capacity := h.capacitySame ▸ s.pool.used_le
  have hroom : s.pool.used.toNat * objSize.toNat ≤ capacity.toNat * objSize.toNat :=
    Nat.mul_le_mul_right _ (le_def.mp hused)
  exact ⟨hused, fun a ha => ⟨(h.inside a ha).1, (h.inside a ha).2.trans (by omega)⟩, h.alone⟩

/-- A heap of sixteen bytes, of which four and then one are asked for. -/
theorem pool_sound_iff_heap :
    ∃ s, run step (.init 1 16 0x1000) [.allocN 4, .alloc] = some s ∧ Sound 1 16 0x1000 s := by
  refine exists_some_imp (q := fun _ => True) (by decide) fun s hrun _ => ?_
  exact ((pool_sound_iff (by decide) hrun).mpr (by decide)).2

/-- With four bytes in use, `2 ^ 64 - 4` more are handed out, and nothing is in use after that: the
next four bytes are the first four. -/
theorem wrapped_count_reuses :
    ∃ s, run step (.init 1 16 0x1000) [.allocN 4, .allocN (-4), .allocN 4] = some s ∧
      s.allocations.head? = s.allocations.getLast? ∧ ¬ Sound 1 16 0x1000 s ∧
      ¬ Along step Grows (.init 1 16 0x1000) [.allocN 4, .allocN (-4), .allocN 4] := by
  refine exists_some_imp (q := fun s => s.allocations.head? = s.allocations.getLast? ∧
    s.allocations = [⟨0x1000, 4⟩, ⟨0x1004, -4⟩, ⟨0x1000, 4⟩]) (by decide)
    fun s _ ⟨hsame, hall⟩ => ⟨hsame, fun h => ?_, fun h => ?_⟩
  · have halo := h.alone
    rw [hall] at halo
    revert halo
    decide
  · have hgr : Grows = Fits := funext₂ fun _ _ => propext grows_iff_fits
    rw [hgr] at h
    revert h
    decide

end TrustedFirmware.Spm.ObjectPool
