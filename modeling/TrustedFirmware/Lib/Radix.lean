import Mathlib.Tactic.Ring

/-!
# Radix trees over address ranges, with reference counts

A node of depth `d` describes a block of `page * fan ^ d` addresses: nothing is there,
one value covers the whole block, or a table with one node of depth `d - 1` for each of
the `fan` parts. A table has a name and a count of the users of its block; it goes away
with its last user.

The operations are those of a page-table walker that *paints* a range:

* `MapsTo` paints a range over what is there, descending where a block cannot be
  painted whole and creating the tables that are missing;
* `FailsAt` is the same walk stopped where the tables have run out;
* `unmap` erases a range and drops the tables whose count gets to zero.

The results are what a verified walker rests on: erasing undoes painting
(`MapsTo.undo`), erasing what a stopped walk painted undoes it exactly where no
table is missed (`FailsAt.undo`) and misses a table otherwise (`FailsAt.missed`),
and each operation keeps a tree in agreement with a plan of what should be where
(`MapsTo.follows`, `FailsAt.follows`, `Node.Follows.unmap`).
-/

namespace TrustedFirmware.Lib.Radix

universe u

/-! ### Blocks and ranges -/

/-- The shape of a tree: the size of the smallest block and the fan-out. -/
structure Geometry where
  page : Nat
  fan : Nat
  page_pos : 0 < page
  fan_pos : 0 < fan

variable {i : Nat}

namespace Geometry

variable (g : Geometry)

/-- The size of a block of depth `d`. -/
def size (d : Nat) : Nat := g.page * g.fan ^ d

/-- The address of the `i`-th part, of depth `d`, of the block at `x`. -/
def kidAt (x d i : Nat) : Nat := x + i * g.size d

theorem size_pos (d : Nat) : 0 < g.size d :=
  mul_pos g.page_pos (Nat.pow_pos g.fan_pos)

theorem size_succ (d : Nat) : g.size (d + 1) = g.fan * g.size d := by
  simp only [size, pow_succ]
  ring

theorem size_dvd {d e : Nat} (h : d ≤ e) : g.size d ∣ g.size e :=
  mul_dvd_mul_left _ (pow_dvd_pow _ h)

theorem le_kidAt (x d i : Nat) : x ≤ g.kidAt x d i := Nat.le_add_right _ _

theorem kidAt_add_size (x d i : Nat) : g.kidAt x d i + g.size d = g.kidAt x d (i + 1) := by
  simp only [kidAt]
  ring

theorem kidAt_mono (x d : Nat) {k : Nat} (h : i ≤ k) : g.kidAt x d i ≤ g.kidAt x d k :=
  Nat.add_le_add_left (Nat.mul_le_mul_right _ h) _

theorem kidAt_unique {x d k v : Nat} (hi : g.kidAt x d i ≤ v) (hi' : v < g.kidAt x d i + g.size d)
    (hk : g.kidAt x d k ≤ v) (hk' : v < g.kidAt x d k + g.size d) : i = k := by
  rw [kidAt_add_size] at hi' hk'
  rcases lt_trichotomy i k with h | h | h
  · have : g.kidAt x d (i + 1) ≤ g.kidAt x d k := g.kidAt_mono x d h
    omega
  · exact h
  · have : g.kidAt x d (k + 1) ≤ g.kidAt x d i := g.kidAt_mono x d h
    omega

theorem kidAt_end_le (x d : Nat) (h : i < g.fan) :
    g.kidAt x d i + g.size d ≤ x + g.size (d + 1) := by
  rw [kidAt_add_size, size_succ]
  exact Nat.add_le_add_left (Nat.mul_le_mul_right _ h) _

theorem dvd_kidAt {x d : Nat} (hx : g.size (d + 1) ∣ x) (i : Nat) : g.size d ∣ g.kidAt x d i :=
  Nat.dvd_add ((g.size_dvd (Nat.le_succ d)).trans hx) (dvd_mul_left _ _)

/-- The part of a block around one of its addresses. -/
theorem kidAt_div {x d v : Nat} (hle : x ≤ v) (hlt : v < x + g.size (d + 1)) :
    (v - x) / g.size d < g.fan ∧ g.kidAt x d ((v - x) / g.size d) ≤ v ∧
      v < g.kidAt x d ((v - x) / g.size d) + g.size d := by
  have hpos := g.size_pos d
  have hdiv := Nat.div_mul_le_self (v - x) (g.size d)
  have hmod := Nat.lt_div_mul_add (a := v - x) hpos
  rw [size_succ] at hlt
  refine ⟨(Nat.div_lt_iff_lt_mul hpos).mpr (by omega), ?_, ?_⟩ <;> simp only [kidAt] <;> omega

end Geometry

/-- The addresses from `lo` up to, and not including, `hi`. -/
structure Range where
  lo : Nat
  hi : Nat
  deriving DecidableEq, Repr

variable {a : Nat} {r : Range}

namespace Range

/-- The range has an address in the `n` addresses from `x`. -/
def Meets (r : Range) (x n : Nat) : Prop := x < r.hi ∧ r.lo < x + n
  deriving Decidable

/-- The ranges share no address. -/
def Apart (r r' : Range) : Prop := r.hi ≤ r'.lo ∨ r'.hi ≤ r.lo

/-- The range has all of the `n` addresses from `x`. -/
def Covers (r : Range) (x n : Nat) : Prop := r.lo ≤ x ∧ x + n ≤ r.hi
  deriving Decidable

theorem Apart.symm {r' : Range} (h : r.Apart r') : r'.Apart r := Or.symm h

theorem Meets.mono {n x m : Nat} (h : r.Meets a n) (hx : x ≤ a) (hm : a + n ≤ x + m) :
    r.Meets x m :=
  ⟨hx.trans_lt h.1, h.2.trans_le hm⟩

theorem Covers.meets {x n : Nat} (h : r.Covers x n) (hn : 0 < n) : r.Meets x n :=
  ⟨by have := h.2; omega, by have := h.1; omega⟩

end Range

/-! ### Trees -/

/-- A node of depth `d`, with values of type `α`. -/
inductive Node (α : Type u) : Nat → Type u
  | empty {d : Nat} : Node α d
  | leaf {d : Nat} (a : α) : Node α d
  | table {d : Nat} (j : Nat) (c : Int) (kids : Nat → Node α d) : Node α (d + 1)

variable {j : Nat} {c : Int}

namespace Node

variable {α : Type u} {d : Nat}

/-- What is in the `i`-th part of a node. -/
def kid : Node α (d + 1) → Nat → Node α d
  | .table _ _ kids, i => kids i
  | _, _ => .empty

/-- The number of users of a node's table, if it has one. -/
def count : Node α (d + 1) → Int
  | .table _ c _ => c
  | _ => 0

/-- The table named `j` is in the tree. -/
def Has (j : Nat) : {d : Nat} → Node α d → Prop
  | _, .empty => False
  | _, .leaf _ => False
  | _, .table j' _ kids => j = j' ∨ ∃ i, (kids i).Has j

/-- No table is at two places. -/
def Distinct : {d : Nat} → Node α d → Prop
  | _, .empty => True
  | _, .leaf _ => True
  | _, .table j _ kids =>
    (∀ i, ¬ (kids i).Has j) ∧
    (∀ i k, i ≠ k → ∀ j', (kids i).Has j' → ¬ (kids k).Has j') ∧
    ∀ i, (kids i).Distinct

/-- The table named `j` is in the tree, and has `c` users. -/
def HasCount (g : Geometry) (j : Nat) (c : Int) : {d : Nat} → Node α d → Prop
  | _, .empty => False
  | _, .leaf _ => False
  | _, .table j' c' kids => (j = j' ∧ c = c') ∨ ∃ i < g.fan, (kids i).HasCount g j c

@[simp] theorem has_empty (j : Nat) : (.empty : Node α d).Has j ↔ False := Iff.rfl

@[simp] theorem has_leaf (j : Nat) (a : α) : (.leaf a : Node α d).Has j ↔ False := Iff.rfl

@[simp] theorem has_table (j j' : Nat) (c : Int) (kids : Nat → Node α d) :
    (Node.table j' c kids).Has j ↔ j = j' ∨ ∃ i, (kids i).Has j := Iff.rfl

@[simp] theorem kid_empty (i : Nat) : (.empty : Node α (d + 1)).kid i = .empty := rfl

@[simp] theorem count_empty : (.empty : Node α (d + 1)).count = 0 := rfl

@[simp] theorem count_table (j : Nat) (c : Int) (kids : Nat → Node α d) :
    (Node.table j c kids).count = c := rfl

theorem distinct_table {kids : Nat → Node α d} : (Node.table j c kids).Distinct ↔
      (∀ i, ¬ (kids i).Has j) ∧
      (∀ i k, i ≠ k → ∀ j', (kids i).Has j' → ¬ (kids k).Has j') ∧
      ∀ i, (kids i).Distinct := Iff.rfl

theorem HasCount.has {g : Geometry} {n : Node α d} (h : n.HasCount g j c) : n.Has j := by
  induction n with
  | empty | leaf => exact h
  | table j' c' kids ih =>
    rcases h with ⟨rfl, -⟩ | ⟨i, -, hi⟩
    · exact .inl rfl
    · exact .inr ⟨i, ih i hi⟩

end Node

section

variable {α : Type u} (g : Geometry)

/-- The table named `j` is one of those that a walk over the blocks in `m` goes
through. -/
def Node.Visits (m : Nat → Nat → Prop) (j : Nat) : {d : Nat} → Nat → Node α d → Prop
  | _, _, .empty => False
  | _, _, .leaf _ => False
  | _, x, .table (d := d) j' _ kids =>
    m (d + 1) x ∧ (j = j' ∨ ∃ i < g.fan, (kids i).Visits m j (g.kidAt x d i))
termination_by structural _ _ n => n

/-- The blocks, of given depth and address, that a range meets. -/
def Range.Blocks (r : Range) (d x : Nat) : Prop := r.Meets x (g.size d)

/-- The blocks around the one of depth `f.1` at `f.2`. -/
def Around (f : Nat × Nat) (d x : Nat) : Prop := f.1 < d ∧ x ≤ f.2 ∧ f.2 < x + g.size d
  deriving Decidable

variable {g} {m : Nat → Nat → Prop}

theorem Node.Visits.has {d x : Nat} {n : Node α d} (h : n.Visits g m j x) : n.Has j := by
  induction n generalizing x with
  | empty | leaf => exact h
  | table j' c kids ih =>
    obtain ⟨-, rfl | ⟨i, -, hi⟩⟩ := h
    · exact .inl rfl
    · exact .inr ⟨i, ih i hi⟩

theorem Node.Visits.self {d x : Nat} {n : Node α d} (h : n.Visits g m j x) : m d x := by
  cases n with
  | empty | leaf => exact False.elim h
  | table => exact h.1

variable (g)

/-- A range to paint: where a block may be painted whole, and with what, if there is
a value for it. -/
structure Paint (α : Type u) extends Range where
  fits : Nat → Nat → Bool
  value : Nat → Nat → Option α

/-- The block of depth `d` at `x` is painted whole. -/
def Paint.Block (p : Paint α) (d x : Nat) : Prop :=
  p.Covers x (g.size d) ∧ p.fits d x = true

instance (p : Paint α) (d x : Nat) : Decidable (p.Block g d x) :=
  inferInstanceAs (Decidable (_ ∧ _))

/-- The walk goes into the table named `j` at this node: the one that is there, or
a new one where a block cannot be painted whole. -/
def Paint.Opens (p : Paint α) (x j : Nat) : {d : Nat} → Node α d → Prop
  | d, .empty => ¬ p.Block g d x
  | _, .leaf _ => False
  | _, .table j' _ _ => j = j'

/-- Painting takes the node at `x` from the first state to the second. A value that
is there already stays. -/
inductive MapsTo (p : Paint α) : {d : Nat} → Nat → Node α d → Node α d → Prop
  | keep {d x : Nat} (a : α) : MapsTo p (d := d) x (.leaf a) (.leaf a)
  | write {d x : Nat} {a : α} (h : p.Block g d x) (ha : p.value d x = some a) :
      MapsTo p (d := d) x .empty (.leaf a)
  | inside {d x j : Nat} {n : Node α (d + 1)} {kids : Nat → Node α d} (ho : p.Opens g x j n)
      (hin : ∀ i < g.fan, p.Meets (g.kidAt x d i) (g.size d) →
        MapsTo p (g.kidAt x d i) (n.kid i) (kids i))
      (hout : ∀ i, ¬ (i < g.fan ∧ p.Meets (g.kidAt x d i) (g.size d)) → kids i = n.kid i) :
      MapsTo p x n (.table j (n.count + 1) kids)

/-- Painting stops, for want of a table, at the block of depth `f.1` at `f.2`. -/
inductive FailsAt (p : Paint α) (f : Nat × Nat) : {d : Nat} → Nat → Node α d → Node α d → Prop
  | here {d x : Nat} (hf : f = (d, x)) (hb : ¬ p.Block g d x) :
      FailsAt p f (d := d) x .empty .empty
  | inside {d x j k : Nat} {n : Node α (d + 1)} {kids : Nat → Node α d} (ho : p.Opens g x j n)
      (hk : k < g.fan) (hm : p.Meets (g.kidAt x d k) (g.size d))
      (hat : FailsAt p f (g.kidAt x d k) (n.kid k) (kids k))
      (hin : ∀ i < k, p.Meets (g.kidAt x d i) (g.size d) →
        MapsTo g p (g.kidAt x d i) (n.kid i) (kids i))
      (hout : ∀ i, ¬ (i ≤ k ∧ p.Meets (g.kidAt x d i) (g.size d)) → kids i = n.kid i) :
      FailsAt p f x n (.table j (n.count + 1) kids)

/-- Erase a range; a table whose last user goes is dropped. -/
def unmap (r : Range) : {d : Nat} → Nat → Node α d → Node α d
  | _, _, .empty => .empty
  | _, _, .leaf _ => .empty
  | _, x, .table (d := d) j c kids =>
    if c = 1 then .empty
    else .table j (c - 1) fun i =>
      if i < g.fan ∧ r.Meets (g.kidAt x d i) (g.size d) then unmap r (g.kidAt x d i) (kids i)
      else kids i
termination_by structural _ _ n => n

/-- The tables that painting asks for, in order: depth and address of the block. -/
def requests (p : Paint α) : (d x : Nat) → Node α d → List (Nat × Nat)
  | _, _, .leaf _ => []
  | 0, x, .empty => if p.Block g 0 x then [] else [(0, x)]
  | d + 1, x, .empty =>
    if p.Block g (d + 1) x then []
    else (d + 1, x) :: (List.range g.fan).flatMap fun i =>
      if p.Meets (g.kidAt x d i) (g.size d) then requests p d (g.kidAt x d i) .empty else []
  | d + 1, x, .table _ _ kids =>
    (List.range g.fan).flatMap fun i =>
      if p.Meets (g.kidAt x d i) (g.size d) then requests p d (g.kidAt x d i) (kids i) else []

variable {g} {p : Paint α}

theorem MapsTo.has {d x : Nat} {n n' : Node α d} (h : MapsTo g p x n n')
    (hj : n.Has j) : n'.Has j := by
  induction h with
  | keep => exact hj
  | write => exact hj.elim
  | @inside d x j' n kids ho hin hout ih =>
    cases n with
    | empty | leaf => exact hj.elim
    | table =>
      rcases hj with rfl | ⟨i, hi⟩
      · exact .inl (ho.symm)
      · refine .inr ⟨i, ?_⟩
        by_cases hv : i < g.fan ∧ p.Meets (g.kidAt x d i) (g.size d)
        · exact ih i hv.1 hv.2 hi
        · rw [hout i hv]
          exact hi

theorem FailsAt.has {f : Nat × Nat} {d x : Nat} {n n' : Node α d}
    (h : FailsAt g p f x n n') (hj : n.Has j) : n'.Has j := by
  induction h with
  | here => exact hj
  | @inside d x j' k n kids ho hk hm hat hin hout ih =>
    cases n with
    | empty | leaf => exact hj.elim
    | table =>
      rcases hj with rfl | ⟨i, hi⟩
      · exact .inl (ho.symm)
      · refine .inr ⟨i, ?_⟩
        by_cases hv : i ≤ k ∧ p.Meets (g.kidAt x d i) (g.size d)
        · rcases lt_or_eq_of_le hv.1 with hik | rfl
          · exact (hin i hik hv.2).has hi
          · exact ih hi
        · rw [hout i hv]
          exact hi

theorem has_of_has_unmap {d x : Nat} {n : Node α d} (h : (unmap g r x n).Has j) : n.Has j := by
  induction n generalizing x with
  | empty | leaf => exact h
  | table j' c kids ih =>
    rw [unmap] at h
    split at h
    · exact h.elim
    · rcases h with rfl | ⟨i, hi⟩
      · exact .inl rfl
      · refine .inr ⟨i, ?_⟩
        dsimp only at hi
        split at hi
        · exact ih i hi
        · exact hi

end

/-! ### Erasing undoes painting -/

variable {b : Nat}

variable {α : Type u} {g : Geometry}

/-- The two ranges meet the same blocks between `a` and `b`. -/
def Range.AgreeOn (r r' : Range) (a b : Nat) : Prop :=
  ∀ x n, a ≤ x → x + n ≤ b → 0 < n → (r'.Meets x n ↔ r.Meets x n)

/-- The part of a range below `v`. -/
def Range.upTo (r : Range) (v : Nat) : Range := ⟨r.lo, v⟩

variable {p : Paint α} {r' : Range} {d x : Nat} {n n' : Node α d}

theorem Range.AgreeOn.kid (h : r.AgreeOn r' x (x + g.size (d + 1))) (hi : i < g.fan) :
    r.AgreeOn r' (g.kidAt x d i) (g.kidAt x d i + g.size d) := fun y n hy hn =>
  h y n ((g.le_kidAt x d i).trans hy) (hn.trans (g.kidAt_end_le x d hi))

theorem Range.agreeOn_upTo {v : Nat} (hv : v ≤ r.hi) (hb : b ≤ v) : r.AgreeOn (r.upTo v) a b := by
  intro x n _ hn hpos
  simp only [Range.Meets, Range.upTo]
  omega

/-- Nothing in the tree has a value in the range, and every table has a user. -/
def Node.Clear (g : Geometry) (r : Range) : {d : Nat} → Nat → Node α d → Prop
  | _, _, .empty => True
  | d, x, .leaf _ => ¬ r.Meets x (g.size d)
  | _, x, .table (d := d) _ c kids => 0 < c ∧ ∀ i < g.fan, (kids i).Clear g r (g.kidAt x d i)
termination_by structural _ _ n => n

/-- The table that erasing leaves of one that painting went into, if it restores
the parts. -/
theorem unmap_table {n : Node α (d + 1)} {kids : Nat → Node α d} (ho : p.Opens g x j n)
    (hc : n.Clear g p.toRange x) (hkids : ∀ i, (if i < g.fan ∧ r.Meets (g.kidAt x d i) (g.size d)
      then unmap g r (g.kidAt x d i) (kids i) else kids i) = n.kid i) :
    unmap g r x (.table j (n.count + 1) kids) = n := by
  cases n with
  | empty => simp [unmap]
  | leaf => exact False.elim ho
  | table j' c =>
    obtain rfl : j = j' := ho
    have hpos : 0 < c := hc.1
    have hne : ¬ c + 1 = 1 := by omega
    simp only [unmap, Node.count_table, if_neg hne, add_sub_cancel_right, Node.table.injEq,
      true_and]
    exact funext hkids

theorem Node.Clear.kid {n : Node α (d + 1)} (h : n.Clear g r x)
    (hi : i < g.fan) : (n.kid i).Clear g r (g.kidAt x d i) := by
  cases n with
  | empty | leaf => trivial
  | table => exact h.2 i hi

/-- **Erasing undoes painting** where nothing was painted over. -/
theorem MapsTo.undo (h : MapsTo g p x n n') (hm : p.Meets x (g.size d)) (hc : n.Clear g p.toRange x)
    (ha : p.AgreeOn r x (x + g.size d)) : unmap g r x n' = n := by
  induction h with
  | keep => exact absurd hm hc
  | write => rfl
  | @inside d x j n kids ho hin hout ih =>
    refine unmap_table ho hc fun i => ?_
    by_cases hi : i < g.fan
    · have hag := ha.kid hi _ (g.size d) le_rfl le_rfl (g.size_pos d)
      by_cases hmi : p.Meets (g.kidAt x d i) (g.size d)
      · rw [if_pos ⟨hi, hag.mpr hmi⟩]
        exact ih i hi hmi hmi (hc.kid hi) (ha.kid hi)
      · rw [if_neg fun h => hmi (hag.mp h.2)]
        exact hout i fun h => hmi h.2
    · rw [if_neg fun h => hi h.1]
      exact hout i fun h => hi h.1

section

variable {f : Nat × Nat} (h : FailsAt g p f x n n')
include h

theorem FailsAt.depth_le : f.1 ≤ d := by
  induction h with
  | here hf => exact le_of_eq (congrArg Prod.fst hf)
  | inside ho hk hm hat hin hout ih => exact Nat.le_succ_of_le ih

/-- Painting that stops at the block it was to paint has done nothing. -/
theorem FailsAt.eq_of_depth (hd : f.1 = d) : f.2 = x ∧ n' = n := by
  cases h with
  | here hf => exact ⟨congrArg Prod.snd hf, rfl⟩
  | inside ho hk hm hat => exact absurd hat.depth_le (by omega)

/-- The block where painting stops is in the block that it was to paint. -/
theorem FailsAt.within : x ≤ f.2 ∧ f.2 + g.size f.1 ≤ x + g.size d := by
  induction h with
  | here hf => subst hf; exact ⟨le_rfl, le_rfl⟩
  | @inside d x j k n kids ho hk hm hat hin hout ih =>
    exact ⟨(g.le_kidAt x d k).trans ih.1, ih.2.trans (g.kidAt_end_le x d hk)⟩

theorem FailsAt.lt_end : f.2 < x + g.size d :=
  lt_of_lt_of_le (Nat.lt_add_of_pos_right (g.size_pos f.1)) h.within.2

omit h in
/-- The parts before the one where painting stops, -/
theorem FailsAt.kid_le {k : Nat} (h : FailsAt g p f (g.kidAt x d k) n n') (hik : i < k) :
    g.kidAt x d i + g.size d ≤ f.2 := by
  rw [g.kidAt_add_size]
  exact (g.kidAt_mono x d hik).trans h.within.1

omit h in
/-- and those after it. -/
theorem FailsAt.lt_kid {k : Nat} (h : FailsAt g p f (g.kidAt x d k) n n') (hik : k < i) :
    f.2 < g.kidAt x d i := by
  refine h.lt_end.trans_le ?_
  rw [g.kidAt_add_size]
  exact g.kidAt_mono x d hik

theorem FailsAt.dvd (hx : g.size d ∣ x) : g.size f.1 ∣ f.2 := by
  induction h with
  | here hf => subst hf; exact hx
  | inside ho hk hm hat hin hout ih => exact ih (g.dvd_kidAt hx _)

/-- The range has an address in the block where painting stops. -/
theorem FailsAt.meets_stop (hm : p.Meets x (g.size d)) : p.Meets f.2 (g.size f.1) := by
  induction h with
  | here hf => subst hf; exact hm
  | inside ho hk hm' hat hin hout ih => exact ih hm'

/-- **A stopped walk is undone** by erasing what it painted, unless it stopped at the
first part of a table: then the erased range does not reach that table. -/
theorem FailsAt.undo (hx : g.size d ∣ x)
    (hm : p.Meets x (g.size d)) (hc : n.Clear g p.toRange x) (hlo : p.lo < f.2)
    (hf : ¬ g.size (f.1 + 1) ∣ f.2) :
    (if (p.upTo f.2).Meets x (g.size d) then unmap g (p.upTo f.2) x n' else n') = n := by
  induction h with
  | here => simp [unmap]
  | @inside d x j k n kids ho hk hmk hat hin hout ih =>
    have hle := hat.depth_le
    have hwith := hat.within
    have hxk := g.le_kidAt x d k
    have hxv : x < f.2 := by
      rcases lt_or_eq_of_le (hxk.trans hwith.1) with h | h
      · exact h
      · exact absurd (h ▸ (g.size_dvd (Nat.succ_le_succ hle)).trans hx) hf
    have hblk := g.kidAt_end_le x d hk
    rw [if_pos ⟨hxv, by simp only [Range.upTo]; omega⟩]
    refine unmap_table ho hc fun i => ?_
    rcases lt_trichotomy i k with hik | rfl | hik
    · have hi : i < g.fan := hik.trans hk
      have hag := Range.agreeOn_upTo (a := g.kidAt x d i) (le_of_lt (hat.meets_stop hmk).1)
        (hat.kid_le hik)
      have hmt := hag _ _ le_rfl le_rfl (g.size_pos d)
      by_cases hmi : p.Meets (g.kidAt x d i) (g.size d)
      · rw [if_pos ⟨hi, hmt.mpr hmi⟩]
        exact (hin i hik hmi).undo hmi (hc.kid hi) hag
      · rw [if_neg fun h => hmi (hmt.mp h.2)]
        exact hout i fun h => hmi h.2
    · simpa [hk] using ih (g.dvd_kidAt hx _) hmk (hc.kid hk)
    · rw [if_neg fun h => absurd h.2.1 (hat.lt_kid hik).not_gt]
      exact hout i fun h => absurd h.1 (by omega)

/-- Where a walk stopped at the first part of a table, or before the start of the
range, some table that it went through is out of reach of the erased range. -/
theorem FailsAt.missed (hx : g.size d ∣ x) (hd : f.1 < d)
    (hdist : n'.Distinct) (hf : f.2 ≤ p.lo ∨ g.size (f.1 + 1) ∣ f.2) :
    ∃ j, n'.Visits g (Around g f) j x ∧
      (p.lo < f.2 → ¬ n'.Visits g ((p.upTo f.2).Blocks g) j x) := by
  induction h with
  | here hf' => exact absurd (congrArg Prod.fst hf') (ne_of_lt hd)
  | @inside d x j k n kids ho hk hmk hat hin hout ih =>
    obtain ⟨hown, hap, hsub⟩ := Node.distinct_table.mp hdist
    have hend : f.2 < x + g.size (d + 1) :=
      hat.lt_end.trans_le (g.kidAt_end_le x d hk)
    have har : Around g f (d + 1) x := ⟨hd, (g.le_kidAt x d k).trans hat.within.1, hend⟩
    rcases lt_or_eq_of_le (Nat.le_of_lt_succ hd) with hlt | heq
    · obtain ⟨j', hv, hnv⟩ := ih (g.dvd_kidAt hx _) hlt (hsub k)
      refine ⟨j', ⟨har, .inr ⟨k, hk, hv⟩⟩, ?_⟩
      rintro hlo ⟨-, rfl | ⟨i, -, hvi⟩⟩
      · exact hown k hv.has
      · by_cases hik : i = k
        · subst hik; exact hnv hlo hvi
        · exact hap i k hik j' hvi.has hv.has
    · -- The walk stopped in this very table, so at its first part.
      refine ⟨j, ⟨har, .inl rfl⟩, fun hlo hv => ?_⟩
      have hxv : x < f.2 := hv.1.1
      rw [heq] at hf
      obtain ⟨q, hq⟩ := hf.resolve_left (by omega)
      obtain ⟨q', hq'⟩ := hx
      rw [hq, hq'] at hxv
      rw [hq, hq', ← Nat.mul_succ] at hend
      have h1 := lt_of_mul_lt_mul_left hxv
      have h2 := lt_of_mul_lt_mul_left hend
      omega

end

/-! ### Trees that follow a plan -/

/-- What should be where: how many users each block has, and which values may
cover it. -/
structure Plan (α : Type u) where
  count : Nat → Nat → Nat
  leaf : Nat → Nat → α → Prop

/-- A block without users has no part with users, and a value is there for a user. -/
structure Plan.Ok (g : Geometry) (l : Plan α) : Prop where
  sub : ∀ d x i, i < g.fan → l.count (d + 1) x = 0 → l.count d (g.kidAt x d i) = 0
  leaf_pos : ∀ d x a, l.leaf d x a → 0 < l.count d x

/-- The tree is as planned: nothing where there is no user, and the right count in
each table. -/
def Node.Follows (g : Geometry) (l : Plan α) : {d : Nat} → Nat → Node α d → Prop
  | d, x, .empty => l.count d x = 0
  | d, x, .leaf a => l.leaf d x a
  | _, x, .table (d := d) _ c kids =>
    c = l.count (d + 1) x ∧ 0 < l.count (d + 1) x ∧
      ∀ i < g.fan, (kids i).Follows g l (g.kidAt x d i)
termination_by structural _ _ n => n

variable {l l' : Plan α}

theorem Node.Follows.eq_empty (h : n.Follows g l x) (hl : l.Ok g)
    (h0 : l.count d x = 0) : n = .empty := by
  cases n with
  | empty => rfl
  | leaf a => exact absurd h0 (ne_of_gt (hl.leaf_pos d x a h))
  | table => exact absurd h0 (ne_of_gt h.2.1)

theorem Node.Follows.kid {n : Node α (d + 1)} (h : n.Follows g l x) (hl : l.Ok g)
    (ho : p.Opens g x j n) (hi : i < g.fan) :
    (n.kid i).Follows g l (g.kidAt x d i) := by
  cases n with
  | empty => exact hl.sub d x i hi h
  | leaf => exact False.elim ho
  | table => exact h.2.2 i hi

theorem Node.Follows.count_eq {n : Node α (d + 1)} (h : n.Follows g l x)
    (ho : p.Opens g x j n) : n.count = l.count (d + 1) x := by
  cases n with
  | empty => exact (congrArg Nat.cast (show l.count (d + 1) x = 0 from h)).symm
  | leaf => exact False.elim ho
  | table => exact h.1

theorem Node.Follows.congr (h : n.Follows g l x) (hx : g.size d ∣ x)
    (hcnt : ∀ e y, e ≤ d → g.size e ∣ y → x ≤ y → y + g.size e ≤ x + g.size d →
      l'.count e y = l.count e y)
    (hleaf : ∀ e y a, e ≤ d → g.size e ∣ y → x ≤ y → y + g.size e ≤ x + g.size d →
      l.leaf e y a → l'.leaf e y a) :
    n.Follows g l' x := by
  induction n generalizing x with
  | @empty d => exact (hcnt d x le_rfl hx le_rfl le_rfl).trans h
  | @leaf d a => exact hleaf d x a le_rfl hx le_rfl le_rfl h
  | @table d j c kids ih =>
    obtain ⟨hc, hpos, hkids⟩ := h
    have hself := hcnt (d + 1) x le_rfl hx le_rfl le_rfl
    refine ⟨by rw [hself]; exact hc, by rw [hself]; exact hpos, fun i hi => ?_⟩
    have hle := g.le_kidAt x d i
    have hend := g.kidAt_end_le x d hi
    refine ih i (hkids i hi) (g.dvd_kidAt hx i) (fun e y he hy hle' hn => ?_)
      (fun e y a he hy hle' hn => ?_)
    · exact hcnt e y (Nat.le_succ_of_le he) hy (hle.trans hle') (hn.trans hend)
    · exact hleaf e y a (Nat.le_succ_of_le he) hy (hle.trans hle') (hn.trans hend)

/-- The values of the range are nowhere yet. -/
theorem Node.Follows.clear (h : n.Follows g l x)
    (hr : ∀ e y a, l.leaf e y a → ¬ r.Meets y (g.size e)) : n.Clear g r x := by
  induction n generalizing x with
  | empty => trivial
  | @leaf d a => exact hr d x a h
  | table j c kids ih =>
    obtain ⟨hc, hpos, hkids⟩ := h
    exact ⟨by omega, fun i hi => ih i (hkids i hi)⟩

/-- Between `a` and `b`, the second plan is the first with a range painted. -/
structure Plan.GrowsOn (g : Geometry) (p : Paint α) (l l' : Plan α) (a b : Nat) : Prop where
  meets : ∀ d x, a ≤ x → x + g.size d ≤ b → p.Meets x (g.size d) → l'.count d x = l.count d x + 1
  apart : ∀ d x, a ≤ x → x + g.size d ≤ b → ¬ p.Meets x (g.size d) → l'.count d x = l.count d x
  keep : ∀ d x v, a ≤ x → x + g.size d ≤ b → l.leaf d x v → l'.leaf d x v
  write : ∀ d x v, a ≤ x → x + g.size d ≤ b → g.size d ∣ x → l.count d x = 0 →
    p.Block g d x → p.value d x = some v → l'.leaf d x v

variable {f : Nat × Nat}

theorem Plan.GrowsOn.mono {a' b' : Nat}
    (h : Plan.GrowsOn g p l l' a b) (ha : a ≤ a') (hb : b' ≤ b) :
    Plan.GrowsOn g p l l' a' b' where
  meets d x hx hn := h.meets d x (ha.trans hx) (hn.trans hb)
  apart d x hx hn := h.apart d x (ha.trans hx) (hn.trans hb)
  keep d x v hx hn := h.keep d x v (ha.trans hx) (hn.trans hb)
  write d x v hx hn := h.write d x v (ha.trans hx) (hn.trans hb)

theorem Plan.GrowsOn.follows_apart (hg : Plan.GrowsOn g p l l' x (x + g.size d)) (hx : g.size d ∣ x)
    (hm : ¬ p.Meets x (g.size d)) (h : n.Follows g l x) : n.Follows g l' x := by
  refine h.congr hx (fun e y _ _ hy hn => hg.apart e y hy hn fun hm' => hm (hm'.mono hy hn)) ?_
  exact fun e y a _ _ hy hn => hg.keep e y a hy hn

/-- **Painting follows the plan.** -/
theorem MapsTo.follows
    (h : MapsTo g p x n n') (hl : l.Ok g) (hg : Plan.GrowsOn g p l l' x (x + g.size d))
    (hx : g.size d ∣ x) (hm : p.Meets x (g.size d)) (hf : n.Follows g l x) :
    n'.Follows g l' x := by
  induction h with
  | @keep d x a => exact hg.keep d x a le_rfl le_rfl hf
  | @write d x a hb ha => exact hg.write d x a le_rfl le_rfl hx hf hb ha
  | @inside d x j n kids ho hin hout ih =>
    have hcnt := hg.meets (d + 1) x le_rfl le_rfl hm
    refine ⟨?_, by omega, fun i hi => ?_⟩
    · rw [hf.count_eq ho, hcnt]
      rfl
    have hgi := hg.mono (g.le_kidAt x d i) (g.kidAt_end_le x d hi)
    by_cases hmi : p.Meets (g.kidAt x d i) (g.size d)
    · exact ih i hi hmi hgi (g.dvd_kidAt hx i) hmi (hf.kid hl ho hi)
    · rw [hout i fun h => hmi h.2]
      exact hgi.follows_apart (g.dvd_kidAt hx i) hmi (hf.kid hl ho hi)

/-- The block of depth `d` at `x` has a table that the walk went through before it
stopped at `f`: it has a painted address, or the walk stopped in it. -/
def Touched (g : Geometry) (p : Paint α) (f : Nat × Nat) (d x : Nat) : Prop :=
  (p.lo < f.2 ∧ (p.upTo f.2).Meets x (g.size d)) ∨ Around g f d x
  deriving Decidable

/-- The plan with a range painted up to where the walk stopped. -/
def Plan.stall (g : Geometry) (p : Paint α) (f : Nat × Nat) (l : Plan α) : Plan α where
  count d x := l.count d x + if Touched g p f d x then 1 else 0
  leaf d x a := l.leaf d x a ∨
    (l.count d x = 0 ∧ p.Block g d x ∧ x + g.size d ≤ f.2 ∧ p.value d x = some a)

theorem Plan.count_stall_of_touched
    (h : Touched g p f d x) : (l.stall g p f).count d x = l.count d x + 1 :=
  congrArg (l.count d x + ·) (if_pos h)

theorem Plan.count_stall_of_not_touched
    (h : ¬ Touched g p f d x) : (l.stall g p f).count d x = l.count d x :=
  congrArg (l.count d x + ·) (if_neg h)

/-- Below the point where the walk stopped, everything is painted. -/
theorem Plan.growsOn_stall (hb : b ≤ f.2)
    (hhi : f.2 ≤ p.hi) : Plan.GrowsOn g p l (l.stall g p f) a b where
  meets d x hx hn hm := by
    have hpos := g.size_pos d
    have hlo : p.lo < x + g.size d := hm.2
    have hxf : x < f.2 := by omega
    exact Plan.count_stall_of_touched (.inl ⟨by omega, hxf, hlo⟩)
  apart d x hx hn hm := by
    refine Plan.count_stall_of_not_touched ?_
    rintro (⟨-, h1, h2⟩ | ⟨-, -, h2⟩)
    · exact hm ⟨h1.trans_le hhi, h2⟩
    · omega
  keep d x v _ _ hv := .inl hv
  write d x v _ hn _ h0 hbl hv := .inr ⟨h0, hbl, hn.trans hb, hv⟩

theorem Node.Follows.stall_apart (h : n.Follows g l x) (hx : g.size d ∣ x) (hlt : f.2 < x) :
    n.Follows g (l.stall g p f) x := by
  refine h.congr hx (fun e y _ _ hy hn => ?_) fun e y a _ _ _ _ ha => .inl ha
  refine Plan.count_stall_of_not_touched ?_
  rintro (⟨-, h1, -⟩ | ⟨-, h1, -⟩)
  · simp only [Range.upTo] at h1
    omega
  · omega

/-- **A stopped walk follows the plan** as far as it got. -/
theorem FailsAt.follows (h : FailsAt g p f x n n') (hl : l.Ok g) (hx : g.size d ∣ x)
    (hf : n.Follows g l x) : n'.Follows g (l.stall g p f) x := by
  induction h with
  | @here d x hf' hb =>
    have hcnt : (l.stall g p f).count d x = l.count d x := by
      refine Plan.count_stall_of_not_touched ?_
      subst hf'
      rintro (⟨-, h1, -⟩ | ⟨h1, -⟩)
      · exact lt_irrefl _ h1
      · exact lt_irrefl _ h1
    exact hcnt.trans hf
  | @inside d x j k n kids ho hk hmk hat hin hout ih =>
    have hwith := hat.within
    have hend := hat.lt_end
    have hblk := g.kidAt_end_le x d hk
    have htch : Touched g p f (d + 1) x :=
      .inr ⟨Nat.lt_succ_of_le hat.depth_le, (g.le_kidAt x d k).trans hwith.1, by omega⟩
    have hcnt := Plan.count_stall_of_touched (l := l) htch
    refine ⟨?_, by omega, fun i hi => ?_⟩
    · rw [hf.count_eq ho, hcnt]
      rfl
    rcases lt_trichotomy i k with hik | rfl | hik
    · have hgi := Plan.growsOn_stall (g := g) (l := l) (a := g.kidAt x d i) (hat.kid_le hik)
        (le_of_lt (hat.meets_stop hmk).1)
      by_cases hmi : p.Meets (g.kidAt x d i) (g.size d)
      · exact (hin i hik hmi).follows hl hgi (g.dvd_kidAt hx i) hmi (hf.kid hl ho hi)
      · rw [hout i fun h => hmi h.2]
        exact hgi.follows_apart (g.dvd_kidAt hx i) hmi (hf.kid hl ho hi)
    · exact ih (g.dvd_kidAt hx _) (hf.kid hl ho hi)
    · rw [hout i fun h => absurd h.1 (by omega)]
      exact (hf.kid hl ho hi).stall_apart (g.dvd_kidAt hx i) (hat.lt_kid hik)

/-- The second plan is the first with a range erased. -/
structure Plan.Shrinks (g : Geometry) (r : Range) (l l' : Plan α) : Prop where
  meets : ∀ d x, r.Meets x (g.size d) → l.count d x = l'.count d x + 1
  apart : ∀ d x, ¬ r.Meets x (g.size d) → l'.count d x = l.count d x
  erase : ∀ d x v, r.Meets x (g.size d) → l.leaf d x v → l'.count d x = 0
  keep : ∀ d x v, ¬ r.Meets x (g.size d) → l.leaf d x v → l'.leaf d x v

theorem Plan.Shrinks.follows_apart (hs : Plan.Shrinks g r l l') (hx : g.size d ∣ x)
    (hm : ¬ r.Meets x (g.size d)) (h : n.Follows g l x) : n.Follows g l' x := by
  refine h.congr hx (fun e y _ _ hy hn => hs.apart e y fun hm' => hm (hm'.mono hy hn)) ?_
  exact fun e y a _ _ hy hn => hs.keep e y a fun hm' => hm (hm'.mono hy hn)

/-- **Erasing follows the plan.** -/
theorem Node.Follows.unmap (h : n.Follows g l x) (hs : Plan.Shrinks g r l l')
    (hx : g.size d ∣ x) (hm : r.Meets x (g.size d)) : (unmap g r x n).Follows g l' x := by
  induction n generalizing x with
  | @empty d =>
    have hc : l.count d x = 0 := h
    exact absurd (hs.meets d x hm) (by omega)
  | @leaf d a => exact hs.erase d x a hm h
  | @table d j c kids ih =>
    obtain ⟨hc, -, hkids⟩ := h
    have hcnt := hs.meets (d + 1) x hm
    rw [Radix.unmap]
    split_ifs with h1
    · show l'.count (d + 1) x = 0
      omega
    · refine ⟨by omega, by omega, fun i hi => ?_⟩
      dsimp only
      by_cases hmi : r.Meets (g.kidAt x d i) (g.size d)
      · rw [if_pos ⟨hi, hmi⟩]
        exact ih i (hkids i hi) (g.dvd_kidAt hx i) hmi
      · rw [if_neg fun h => hmi h.2]
        exact hs.follows_apart (g.dvd_kidAt hx i) hmi (hkids i hi)

/-- A table with users left stays in the tree: one that goes away with a table around
it has lost its last user too. -/
theorem Node.Follows.has_unmap (h : n.Follows g l x) (hs : Plan.Shrinks g r l l') (hl : l'.Ok g)
    (hx : g.size d ∣ x) (hm : r.Meets x (g.size d)) (hj : n.HasCount g j c) :
    (Radix.unmap g r x n).Has j ∨ (n.Visits g (r.Blocks g) j x ∧ c = 1) := by
  induction n generalizing x with
  | empty => exact hj.elim
  | leaf => exact hj.elim
  | @table d j' c' kids ih =>
    obtain ⟨hc, -, hkids⟩ := h
    by_cases h1 : c' = 1
    · rcases hj with ⟨rfl, rfl⟩ | ⟨i, hi, hij⟩
      · exact Or.inr ⟨⟨hm, .inl rfl⟩, h1⟩
      · have h0 : l'.count (d + 1) x = 0 := by
          have := hs.meets (d + 1) x hm
          omega
        have hi0 := hl.sub d x i hi h0
        -- No user of the part is left, so the range meets it and nothing of it stays.
        by_cases hmi : r.Meets (g.kidAt x d i) (g.size d)
        · have hemp := ((hkids i hi).unmap hs (g.dvd_kidAt hx i) hmi).eq_empty hl hi0
          rcases ih i (hkids i hi) (g.dvd_kidAt hx i) hmi hij with hhas | ⟨hv, hc1⟩
          · rw [hemp] at hhas
            exact hhas.elim
          · exact Or.inr ⟨⟨hm, Or.inr ⟨i, hi, hv⟩⟩, hc1⟩
        · have hemp :=
            (hs.follows_apart (g.dvd_kidAt hx i) hmi (hkids i hi)).eq_empty hl hi0
          rw [hemp] at hij
          exact hij.elim
    · rw [Radix.unmap, if_neg h1]
      rcases hj with ⟨rfl, rfl⟩ | ⟨i, hi, hij⟩
      · exact .inl (.inl rfl)
      · by_cases hmi : r.Meets (g.kidAt x d i) (g.size d)
        · rcases ih i (hkids i hi) (g.dvd_kidAt hx i) hmi hij with hhas | ⟨hv, hc1⟩
          · refine .inl (.inr ⟨i, ?_⟩)
            dsimp only
            rw [if_pos ⟨hi, hmi⟩]
            exact hhas
          · exact .inr ⟨⟨hm, .inr ⟨i, hi, hv⟩⟩, hc1⟩
        · refine .inl (.inr ⟨i, ?_⟩)
          dsimp only
          rw [if_neg fun h => hmi h.2]
          exact hij.has

/-- The plan once a stopped walk has been taken back: the tables around the block where
it stopped keep the user where the erased range does not reach them. -/
def Plan.undone (g : Geometry) (p : Paint α) (f : Nat × Nat) (l : Plan α) : Plan α where
  count d x := l.count d x +
    if Around g f d x ∧ ¬ (p.upTo f.2).Meets x (g.size d) then 1 else 0
  leaf := l.leaf

/-- Erasing what a stopped walk painted, where nothing was painted over. -/
theorem Plan.shrinks_stall (hlo : p.lo < f.2)
    (hhi : f.2 ≤ p.hi) (hclr : ∀ d x a, l.leaf d x a → ¬ p.Meets x (g.size d)) :
    Plan.Shrinks g (p.upTo f.2) (l.stall g p f) (l.undone g p f) where
  meets d x hm := by
    have htch : Touched g p f d x := .inl ⟨hlo, hm⟩
    simp only [Plan.stall, Plan.undone, if_pos htch, hm, not_true_eq_false, and_false,
      if_false, add_zero]
  apart d x hm := by
    refine congrArg (l.count d x + ·) (if_congr ?_ rfl rfl)
    simp [hm, Touched]
  erase d x v hm hv := by
    rcases hv with hv | ⟨h0, -, -, -⟩
    · exact absurd ⟨hm.1.trans_le hhi, hm.2⟩ (hclr d x v hv)
    · simp only [Plan.undone, h0, hm, not_true_eq_false, and_false, if_false]
  keep d x v hm hv := by
    rcases hv with hv | ⟨-, hb, hle, -⟩
    · exact hv
    · have hpos := g.size_pos d
      have hcov : p.lo ≤ x := hb.1.1
      refine absurd ⟨?_, ?_⟩ hm <;> simp only [Range.upTo] <;> omega

end TrustedFirmware.Lib.Radix
