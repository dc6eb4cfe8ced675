import Mathlib.Data.List.Basic

/-!
# Cells of a NOR flash

Erasing makes a cell blank, and programming combines what it holds with the data by an operation
that is associative, commutative and idempotent, such as the bitwise and. What a list of operations
does to one cell is a list of actions.

A list that erases before it programs can be started over: it does not matter how often, and after
which of its actions, it has been given up before.
-/

namespace TrustedFirmware.Lib.NorCells

open List

/-- What an operation does to one cell. -/
inductive Act (β : Type)
  | keep
  | erase
  | program (b : β)
  deriving DecidableEq

variable {β : Type} (op : β → β → β) (blank : β)

/-- The cell after an action. -/
def Act.apply : Act β → β → β
  | .keep, b => b
  | .erase, _ => blank
  | .program d, b => op b d

/-- The cell after a list of actions. -/
def cell (acts : List (Act β)) (b : β) : β := acts.foldl (fun b a => a.apply op blank b) b

variable {op blank}

@[simp] theorem cell_nil (b : β) : cell op blank [] b = b := rfl

@[simp] theorem cell_cons (a : Act β) (acts : List (Act β)) (b : β) :
    cell op blank (a :: acts) b = cell op blank acts (a.apply op blank b) := rfl

@[simp] theorem cell_append (acts acts' : List (Act β)) (b : β) :
    cell op blank (acts ++ acts') b = cell op blank acts' (cell op blank acts b) :=
  foldl_append

variable {acts : List (Act β)}

theorem cell_keep (h : ∀ a ∈ acts, a = .keep) (b : β) : cell op blank acts b = b := by
  induction acts generalizing b with
  | nil => rfl
  | cons a acts ih =>
    obtain rfl := h a mem_cons_self
    exact ih (fun a' ha' => h a' (mem_cons_of_mem _ ha')) b

/-- A cell that one operation out of a list acts on. -/
theorem cell_only {f : Nat → Act β} {k : Nat} (b : β) {n : Nat}
    (hoth : ∀ i < n, i ≠ k → f i = .keep) (hk : k < n) :
    cell op blank ((range n).map f) b = (f k).apply op blank b := by
  induction n with
  | zero => exact absurd hk (Nat.not_lt_zero k)
  | succ n ih =>
    rw [range_succ, map_append, cell_append]
    obtain rfl | hkn := eq_or_ne k n
    · have hkeep : ∀ a ∈ (range k).map f, a = .keep := by
        intro a ha
        obtain ⟨i, hi, rfl⟩ := mem_map.mp ha
        have hlt : i < k := mem_range.mp hi
        exact hoth i (by omega) (by omega)
      rw [cell_keep hkeep]
      rfl
    · rw [ih (fun i hi => hoth i (by omega)) (by omega)]
      simp [hoth n (Nat.lt_succ_self n) (Ne.symm hkn), Act.apply]

/-- The action does not program. -/
def Act.Erases (a : Act β) : Prop := a = .keep ∨ a = .erase

/-- The action does not erase. -/
def Act.Programs (a : Act β) : Prop := a = .keep ∨ ∃ b, a = .program b

theorem cell_erased (h : ∀ a ∈ acts, a.Erases) (he : .erase ∈ acts) (b : β) :
    cell op blank acts b = blank := by
  induction acts generalizing b with
  | nil => simp at he
  | cons a acts ih =>
    have hrest : ∀ a' ∈ acts, a'.Erases := fun a' ha' => h a' (mem_cons_of_mem _ ha')
    by_cases hmem : Act.erase ∈ acts
    · exact ih hrest hmem _
    · obtain rfl : Act.erase = a := by simpa [hmem] using he
      refine cell_keep (fun a' ha' => (hrest a' ha').resolve_right ?_) _
      rintro rfl
      exact hmem ha'

theorem cell_kept (h : ∀ a ∈ acts, a.Erases) (he : .erase ∉ acts) (b : β) :
    cell op blank acts b = b := by
  refine cell_keep (fun a ha => (h a ha).resolve_right ?_) b
  rintro rfl
  exact he ha

variable [Std.Associative op] [Std.Commutative op]

/-- Actions that do not erase can be put behind what has been combined already. -/
theorem cell_op (h : ∀ a ∈ acts, a.Programs) (b d : β) :
    cell op blank acts (op b d) = op (cell op blank acts b) d := by
  induction acts generalizing b with
  | nil => rfl
  | cons a acts ih =>
    have hrest : ∀ a' ∈ acts, a'.Programs := fun a' ha' => h a' (mem_cons_of_mem _ ha')
    rcases h a mem_cons_self with rfl | ⟨d', rfl⟩
    · exact ih hrest b
    · have hswap : op (op b d) d' = op (op b d') d := by ac_rfl
      simp only [cell_cons, Act.apply, hswap]
      exact ih hrest (op b d')

variable [Std.IdempotentOp op]

theorem cell_program_again (h : ∀ a ∈ acts, a.Programs) (k : Nat) (b : β) :
    cell op blank acts (cell op blank (acts.take k) b) = cell op blank acts b := by
  induction acts generalizing k b with
  | nil => simp
  | cons a acts ih =>
    have hrest : ∀ a' ∈ acts, a'.Programs := fun a' ha' => h a' (mem_cons_of_mem _ ha')
    cases k with
    | zero => rfl
    | succ k =>
      rcases h a mem_cons_self with rfl | ⟨d, rfl⟩
      · exact ih hrest k b
      · have htake : ∀ a' ∈ acts.take k, a'.Programs :=
          fun a' ha' => hrest a' (mem_of_mem_take ha')
        have hidem : op (op b d) d = op b d := by
          have hd : op d d = d := Std.IdempotentOp.idempotent d
          calc op (op b d) d = op b (op d d) := by ac_rfl
            _ = op b d := by rw [hd]
        have haga : op (cell op blank (acts.take k) (op b d)) d =
            cell op blank (acts.take k) (op b d) := by
          refine (cell_op htake (op b d) d).symm.trans ?_
          rw [hidem]
        simp only [take_succ_cons, cell_cons, Act.apply, haga]
        exact ih hrest k (op b d)

/-- **Starting over.** A list that erases and then programs leaves the same cell when part of it
has been done before. -/
theorem cell_restart {es ps : List (Act β)} (hes : ∀ a ∈ es, a.Erases) (hps : ∀ a ∈ ps, a.Programs)
    (k : Nat) (b : β) :
    cell op blank (es ++ ps) (cell op blank ((es ++ ps).take k) b) =
      cell op blank (es ++ ps) b := by
  simp only [cell_append]
  by_cases he : Act.erase ∈ es
  · rw [cell_erased hes he, cell_erased hes he]
  · have hkept : cell op blank (es.take k) b = b :=
      cell_keep (fun a ha => by
        refine (hes a (mem_of_mem_take ha)).resolve_right ?_
        rintro rfl
        exact he (mem_of_mem_take ha)) b
    rw [cell_kept hes he, cell_kept hes he, take_append, cell_append, hkept]
    exact cell_program_again hps _ b

end TrustedFirmware.Lib.NorCells
