import Mathlib.Algebra.Order.Ring.Nat
import Mathlib.Data.List.Basic

/-!
# Finite runs of an event-driven machine

A machine is a partial step function `step : σ → ε → Option σ`: `none` means that the
event is not possible in that state (a guard that blocks, an assertion that fails, a
panic). A run executes a list of events in order, so "every interleaving" is "every list
of events".

The two rules below are the only inductions over runs in the development: every
safety theorem supplies what holds initially and what one step preserves.
-/

namespace TrustedFirmware.Lib

open List Function

variable {σ ε : Type*} {step : σ → ε → Option σ} {es fs : List ε} {ok : σ → ε → Prop} {s : σ}
  {inv : σ → Prop} {p : ε → Prop}

/-- The CPUs of the sample runs are numerals of `Fin 2`. -/
instance neZero_two : NeZero 2 := ⟨Nat.succ_ne_zero 1⟩

/-- Execute the events of a list in order. -/
def run (step : σ → ε → Option σ) : σ → List ε → Option σ
  | s, [] => some s
  | s, e :: es => (step s e).bind (run step · es)

@[simp] theorem run_nil (s : σ) : run step s [] = some s := rfl

theorem run_cons {s' : σ} {e : ε} (h : run step s (e :: es) = some s') :
    ∃ t, step s e = some t ∧ run step t es = some s' := by
  cases ht : step s e with
  | none => simp [run, ht] at h
  | some t => exact ⟨t, rfl, by simpa [run, ht] using h⟩

theorem run_append : run step s (es ++ fs) = (run step s es).bind (run step · fs) := by
  induction es generalizing s with
  | nil => rfl
  | cons e es ih =>
    rw [cons_append, run, run, Option.bind_assoc]
    exact Option.bind_congr fun t _ => ih

theorem run_trans {t s' : σ} (h : run step s es = some t)
    (h' : run step t fs = some s') : run step s (es ++ fs) = some s' := by
  rw [run_append, h]
  exact h'

/-- **Invariant rule.** A property that every possible step preserves is
preserved by every run. -/
theorem run_invariant (hstep : ∀ s e s', inv s → step s e = some s' → inv s') {es : List ε}
    {s s' : σ} (hs : inv s) (h : run step s es = some s') : inv s' := by
  induction es generalizing s with
  | nil =>
    obtain rfl : s = s' := by simpa using h
    exact hs
  | cons e es ih =>
    obtain ⟨t, ht, hrest⟩ := run_cons h
    exact ih (hstep s e t hs ht) hrest

/-- Every step of the run is taken from a state, and with an event, that
satisfies `ok`. -/
def Along (step : σ → ε → Option σ) (ok : σ → ε → Prop) : σ → List ε → Prop
  | _, [] => True
  | s, e :: es => ok s e ∧ ∀ t, step s e = some t → Along step ok t es

instance decidableAlong {ok : σ → ε → Prop} [∀ s e, Decidable (ok s e)] :
    ∀ (s : σ) (es : List ε), Decidable (Along step ok s es)
  | _, [] => isTrue trivial
  | s, e :: es =>
    match ht : step s e with
    | none => decidable_of_iff (ok s e) ⟨fun h => ⟨h, by simp [ht]⟩, And.left⟩
    | some t =>
      have : Decidable (Along step ok t es) := decidableAlong t es
      decidable_of_iff (ok s e ∧ Along step ok t es) ⟨fun h => ⟨h.1, fun u hu => by
            obtain rfl : t = u := by simpa [ht] using hu
            exact h.2⟩,
          fun h => ⟨h.1, h.2 t ht⟩⟩

/-- A condition on the events alone. -/
theorem along_of_forall (hp : ∀ e ∈ es, p e) : Along step (fun _ e => p e) s es := by
  induction es generalizing s with
  | nil => trivial
  | cons e es ih =>
    refine ⟨hp e mem_cons_self, fun t _ => ?_⟩
    exact ih fun e' he' => hp e' (mem_cons_of_mem e he')

/-- A run that meets a condition, with events of one kind, meets both. -/
theorem Along.and_forall (h : Along step ok s es) (hp : ∀ e ∈ es, p e) :
    Along step (fun s e => p e ∧ ok s e) s es := by
  induction es generalizing s with
  | nil => trivial
  | cons e es ih =>
    refine ⟨⟨hp e mem_cons_self, h.1⟩, fun t ht => ?_⟩
    exact ih (h.2 t ht) fun e' he' => hp e' (mem_cons_of_mem e he')

/-- **Invariant rule, guarded.** As `run_invariant`, for a step that preserves
the property only where `ok` holds. -/
theorem run_invariant_along (hstep : ∀ s e s', inv s → ok s e → step s e = some s' → inv s')
    {es : List ε} {s s' : σ} (hs : inv s) (hok : Along step ok s es) (h : run step s es = some s') :
    inv s' := by
  induction es generalizing s with
  | nil =>
    obtain rfl : s = s' := by simpa using h
    exact hs
  | cons e es ih =>
    obtain ⟨t, ht, hrest⟩ := run_cons h
    exact ih (hstep s e t hs hok.1 ht) (hok.2 t ht) hrest

section

variable {α β : Type*} {o : Option α} {p q : α → Prop}

/-- A sample run is executed to see that it ends, and that its end has a property. -/
instance decidableExistsSome [DecidablePred p] : Decidable (∃ a, o = some a ∧ p a) :=
  match o with
  | none => isFalse nofun
  | some a => decidable_of_iff (p a)
    ⟨fun h => ⟨a, rfl, h⟩, fun ⟨_, ha, h⟩ => Option.some.inj ha ▸ h⟩

/-- So is a call, to see what it returns. -/
instance decidableExistsRet {o : Option (α × β)} {b : β} [DecidableEq β] [DecidablePred p] :
    Decidable (∃ a, o = some (a, b) ∧ p a) :=
  decidable_of_iff (∃ r, o = some r ∧ r.2 = b ∧ p r.1)
    ⟨fun ⟨r, hr, hb, h⟩ => ⟨r.1, hb ▸ hr, h⟩, fun ⟨a, ha, h⟩ => ⟨(a, b), ha, rfl, h⟩⟩

theorem exists_some_imp (hq : ∃ a, o = some a ∧ q a) (h : ∀ a, o = some a → q a → p a) :
    ∃ a, o = some a ∧ p a :=
  hq.imp fun a ha => ⟨ha.1, h a ha.1 ha.2⟩

end

section

variable {α β ι : Type*} [DecidableEq ι] {k : α → ι} {f : α → β → Option β} {v : α → β}
  {l : List α} {g : ι → β}

/-- A loop that rewrites the entries of a table, each of them once. -/
theorem run_update (hl : (l.map k).Nodup) (h : ∀ a ∈ l, f a (g (k a)) = some (v a)) :
    ∃ g', run (fun g a => (f a (g (k a))).map (update g (k a))) g l = some g' ∧
      (∀ a ∈ l, g' (k a) = v a) ∧ ∀ i ∉ l.map k, g' i = g i := by
  induction l generalizing g with
  | nil => exact ⟨g, rfl, fun a ha => absurd ha not_mem_nil, fun _ _ => rfl⟩
  | cons a l ih =>
    obtain ⟨hnot, hl⟩ := nodup_cons.mp hl
    have hrest : ∀ b ∈ l, f b (update g (k a) (v a) (k b)) = some (v b) := by
      intro b hb
      have hne : k b ≠ k a := fun hk => hnot (hk ▸ mem_map_of_mem hb)
      rw [update_of_ne hne]
      exact h b (mem_cons_of_mem a hb)
    obtain ⟨g', hrun, hin, hout⟩ := ih hl hrest
    refine ⟨g', ?_, forall_mem_cons.mpr ⟨?_, hin⟩, fun i hi => ?_⟩
    · simpa [run, h a mem_cons_self] using hrun
    · rw [hout _ hnot, update_self]
    · obtain ⟨hne, hi⟩ := not_or.mp fun hmem => hi (mem_cons.mpr hmem)
      rw [hout i hi, update_of_ne hne]

/-- Such a loop stops at an entry that can not be written. -/
theorem run_update_none {a : α} (ha : a ∈ l) (hnone : ∀ b, f a b = none) :
    run (fun g a => (f a (g (k a))).map (update g (k a))) g l = none := by
  induction l generalizing g with
  | nil => cases ha
  | cons b l ih =>
    rcases mem_cons.mp ha with rfl | ha
    · simp [run, hnone]
    · cases hb : f b (g (k b)) with
      | none => simp [run, hb]
      | some => simpa [run, hb] using ih ha

end

end TrustedFirmware.Lib
