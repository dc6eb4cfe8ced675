import Mathlib.Data.Fintype.Basic
import Mathlib.Tactic.FinCases
import TrustedFirmware.Locks.Bakery

/-!
# How large bakery tickets get

A ticket is one more than the largest ticket read, so while some CPU always contends the
tickets can grow with every acquisition, and nothing keeps them within their 15 bits.
They start again from 1 once no CPU contends: a ticket is at most the number of tickets
taken since then. So every ticket fits as long as the lock comes to rest at least once
in `0x7FFF` acquisitions (`bakery_tickets_fit`), and two CPUs that hand the lock to each
other overflow the field (`bakery_ticket_overflow`).
-/

namespace TrustedFirmware.Bakery

open Lib State Nat

/-! ### Tickets taken since the lock was at rest -/

/-- In the word of every CPU that has its ticket is the ticket that the CPU uses, and
it is one of 15 bits. -/
def TicketsDecode {n : Nat} (s : State n) : Prop :=
  ∀ i, (s.pc i).Holds → (s.pc i).ticket ≤ 0x7FFF ∧
    bakeryTicketNumber (s.lockData i) = (s.pc i).ticket ∧ (s.pc i).ticket ≠ 0

/-- CPU `me` is about to store its ticket. -/
def TakesTicket {n : Nat} (s : State n) (me : Fin n) : Prop := (computedTicket s me).isSome
  deriving Decidable

/-- No CPU contends for the lock. -/
def State.AtRest {n : Nat} (s : State n) : Prop := ∀ i, s.pc i = .idle

instance {n : Nat} (s : State n) : Decidable s.AtRest :=
  inferInstanceAs (Decidable (∀ i, s.pc i = .idle))

/-- The lock, with a count of the tickets that were taken since it was last at rest. -/
structure Counted (n : Nat) where
  state : State n
  tickets : Nat

def Counted.init (n : Nat) : Counted n := ⟨State.init n, 0⟩

/-- One step of CPU `me`. -/
def Counted.step {n : Nat} (v : Variant) (c : Counted n) (me : Fin n) : Option (Counted n) :=
  let s := next v c.state me
  some ⟨s, if s.AtRest then 0 else if TakesTicket c.state me then c.tickets + 1 else c.tickets⟩

/-- The largest ticket that the CPU knows of: its own, or the largest one read. -/
def Pc.number : Pc → Nat
  | .idle => 0
  | .scan _ t | .poll _ t | .spin _ t _ | .critical t => t

theorem Pc.ticket_le_number (p : Pc) : p.ticket ≤ p.number := by
  cases p with
  | idle => exact le_rfl
  | scan they t => exact zero_le t
  | poll they t | spin they t | critical t => exact le_rfl

/-- No CPU knows of a ticket above `m`. -/
structure TicketsBelow {n : Nat} (s : State n) (m : Nat) : Prop where
  word : ∀ i, s.lockData i = (s.pc i).word
  number_le : ∀ i, (s.pc i).number ≤ m
  ticket_pos : ∀ i, (s.pc i).Holds → (s.pc i).ticket ≠ 0
  le : m ≤ 0x7FFF

section

variable {n : Nat} {v : Variant} {s : State n} {m m' : Nat} {me : Fin n} {p : Pc}

theorem TicketsBelow.init (n : Nat) : TicketsBelow (init n) 0 :=
  ⟨fun _ => rfl, fun _ => le_rfl, fun _ h => h.elim, zero_le _⟩

section

variable (h : TicketsBelow s m)
include h

theorem TicketsBelow.ticketNumber_le (i : Fin n) : bakeryTicketNumber (s.lockData i) ≤ m := by
  have hle := (s.pc i).ticket_le_number.trans (h.number_le i)
  rw [h.word i, Pc.ticketNumber_word (hle.trans h.le)]
  exact hle

theorem TicketsBelow.decode : TicketsDecode s := by
  intro i hi
  have hle := ((s.pc i).ticket_le_number.trans (h.number_le i)).trans h.le
  rw [h.word i]
  exact ⟨hle, Pc.ticketNumber_word hle, h.ticket_pos i hi⟩

theorem TicketsBelow.store (hle : m ≤ m') (hm' : m' ≤ 0x7FFF)
    (hp : p.number ≤ m') (hpos : p.Holds → p.ticket ≠ 0) :
    TicketsBelow (s.store me p.word p) m' := by
  refine ⟨fun i => ?_, fun i => ?_, fun i => ?_, hm'⟩ <;> simp only [State.store]
  · by_cases hi : i = me
    · subst hi; simp
    · simpa [hi] using h.word i
  · by_cases hi : i = me
    · subst hi; simpa using hp
    · simpa [hi] using (h.number_le i).trans hle
  · by_cases hi : i = me
    · subst hi; simpa using hpos
    · simpa [hi] using h.ticket_pos i

theorem TicketsBelow.setPc (hword : p.word = (s.pc me).word)
    (hp : p.number ≤ m) (hpos : p.Holds → p.ticket ≠ 0) : TicketsBelow (s.setPc me p) m := by
  have hsto : s.store me p.word p = s.setPc me p := by
    rw [hword, ← h.word me, State.store, State.setPc, Function.update_eq_self]
  rw [← hsto]
  exact h.store le_rfl h.le hp hpos

theorem TicketsBelow.keep (hold : (s.pc me).Holds) (hnew : p.Holds)
    (ht : p.ticket = (s.pc me).ticket) (hn : p.number = (s.pc me).number) :
    TicketsBelow (s.setPc me p) m := by
  refine h.setPc ?_ ?_ fun _ => ?_
  · rw [hnew.word, hold.word, ht]
  · rw [hn]
    exact h.number_le me
  · rw [ht]
    exact h.ticket_pos me hold

theorem TicketsBelow.scanStep {they t : Nat}
    (hpc : s.pc me = .scan they t) (hfit : TakesTicket s me → m < 0x7FFF) :
    TicketsBelow (scanStep v s me they t) (if TakesTicket s me then m + 1 else m) := by
  have ht : t ≤ m := by
    have hle := h.number_le me
    rw [hpc] at hle
    exact hle
  unfold Bakery.scanStep
  by_cases hthey : they < n
  · have hno : ¬ TakesTicket s me := by simp [TakesTicket, computedTicket, hpc, hthey]
    rw [dif_pos hthey, if_neg hno]
    split
    · exact h.setPc (by rw [hpc]; rfl) ht fun hp => hp.elim
    · refine h.setPc (by rw [hpc]; rfl) ?_ fun hp => hp.elim
      split
      · exact h.ticketNumber_le _
      · exact ht
  · have hyes : TakesTicket s me := by simp [TakesTicket, computedTicket, hpc, hthey]
    rw [dif_neg hthey, if_pos hyes]
    exact h.store (p := .poll 0 (t + 1)) (le_succ m) (hfit hyes) (succ_le_succ ht)
      fun _ => succ_ne_zero t

/-- **One step** raises what the CPUs know of only by taking a ticket. -/
theorem TicketsBelow.next (hfit : TakesTicket s me → m < 0x7FFF) :
    TicketsBelow (next v s me) (if TakesTicket s me then m + 1 else m) := by
  cases hpc : s.pc me with
  | scan =>
    rw [Bakery.next, hpc]
    exact h.scanStep hpc hfit
  | idle =>
    rw [Bakery.next, hpc, if_neg (by simp [TakesTicket, computedTicket, hpc])]
    exact h.store (p := .scan 0 0) le_rfl h.le (zero_le m) fun hp => hp.elim
  | poll they t =>
    have hold : (s.pc me).Holds := by rw [hpc]; trivial
    rw [Bakery.next, hpc, if_neg (by simp [TakesTicket, computedTicket, hpc])]
    have hkeep : ∀ p : Pc, p.Holds → p.ticket = t → p.number = t → TicketsBelow (s.setPc me p) m :=
      fun p hp ht hn => h.keep hold hp (by rw [ht, hpc]; rfl) (by rw [hn, hpc]; rfl)
    dsimp only [pollStep]
    split_ifs
    · exact hkeep _ trivial rfl rfl
    · exact h
    · exact hkeep _ trivial rfl rfl
    · exact hkeep _ trivial rfl rfl
    · exact hkeep _ trivial rfl rfl
  | spin =>
    have hold : (s.pc me).Holds := by rw [hpc]; trivial
    rw [Bakery.next, hpc, if_neg (by simp [TakesTicket, computedTicket, hpc])]
    dsimp only [spinStep]
    split_ifs
    · exact h
    · exact h.keep hold trivial (by rw [hpc]; rfl) (by rw [hpc]; rfl)
    · exact h
  | critical =>
    rw [Bakery.next, hpc, if_neg (by simp [TakesTicket, computedTicket, hpc])]
    exact h.store (p := .idle) le_rfl h.le (zero_le m) fun hp => hp.elim

theorem TicketsBelow.atRest (hrest : s.AtRest) : TicketsBelow s 0 := by
  refine ⟨h.word, fun i => ?_, h.ticket_pos, zero_le _⟩
  rw [hrest i]
  exact le_rfl

end

/-- No CPU knows of a ticket above the number of tickets taken. -/
def Counted.Below {n : Nat} (c : Counted n) : Prop := TicketsBelow c.state c.tickets

theorem Counted.Below.step {c c' : Counted n} (h : c.Below)
    (hfit : TakesTicket c.state me → c.tickets < 0x7FFF) (hstep : c.step v me = some c') :
    c'.Below := by
  cases hstep
  have hnext : TicketsBelow (Bakery.next v c.state me)
    (if TakesTicket c.state me then c.tickets + 1 else c.tickets) := TicketsBelow.next h hfit
  split
  next hrest => exact hnext.atRest hrest
  · exact hnext

end

/-- **Tickets fit their field** in every interleaving in which fewer than `0x8000`
tickets are taken without the lock coming to rest: the word of every CPU that has a
ticket decodes to the ticket that the CPU compares with, which is not zero. -/
theorem bakery_tickets_fit {n : Nat} (v : Variant) {sched : List (Fin n)} {c : Counted n}
    (hrest : Along (Counted.step v) (fun c me => TakesTicket c.state me → c.tickets < 0x7FFF)
      (Counted.init n) sched)
    (hrun : run (Counted.step v) (Counted.init n) sched = some c) : TicketsDecode c.state := by
  have hinit : (Counted.init n).Below := TicketsBelow.init n
  have hbel : c.Below := run_invariant_along (fun _ _ _ => Counted.Below.step) hinit hrest hrun
  exact hbel.decode

theorem bakery_tickets_fit_contended :
    ∃ c, run (Counted.step .coherent) (Counted.init 2) contendedSched = some c ∧
      c.tickets = 2 ∧ TicketsDecode c.state := by
  refine exists_some_imp (by decide) fun c hrun hend => ⟨hend, ?_⟩
  exact bakery_tickets_fit .coherent (by decide) hrun

/-! ### Two CPUs that hand the lock to each other -/

/-- The state of a lock of two CPUs. -/
def pair (w₀ w₁ : Nat) (p₀ p₁ : Pc) : State 2 where
  lockData i := if i = 0 then w₀ else w₁
  pc i := if i = 0 then p₀ else p₁

variable (w₀ w₁ w : Nat) (p₀ p₁ p : Pc)

@[simp] theorem pair_lockData_zero : (pair w₀ w₁ p₀ p₁).lockData 0 = w₀ := rfl

@[simp] theorem pair_lockData_one : (pair w₀ w₁ p₀ p₁).lockData 1 = w₁ := rfl

@[simp] theorem pair_pc_zero : (pair w₀ w₁ p₀ p₁).pc 0 = p₀ := rfl

@[simp] theorem pair_pc_one : (pair w₀ w₁ p₀ p₁).pc 1 = p₁ := rfl

@[simp] theorem pair_store_zero : (pair w₀ w₁ p₀ p₁).store 0 w p = pair w w₁ p p₁ := by
  simp only [pair, store, mk.injEq]
  constructor <;> funext i <;> fin_cases i <;> simp

@[simp] theorem pair_store_one : (pair w₀ w₁ p₀ p₁).store 1 w p = pair w₀ w p₀ p := by
  simp only [pair, store, mk.injEq]
  constructor <;> funext i <;> fin_cases i <;> simp

@[simp] theorem pair_setPc_zero : (pair w₀ w₁ p₀ p₁).setPc 0 p = pair w₀ w₁ p p₁ := by
  simp only [pair, setPc, mk.injEq, true_and]
  funext i
  fin_cases i <;> simp

@[simp] theorem pair_setPc_one : (pair w₀ w₁ p₀ p₁).setPc 1 p = pair w₀ w₁ p₀ p := by
  simp only [pair, setPc, mk.injEq, true_and]
  funext i
  fin_cases i <;> simp

theorem ticketNumber_choosing : bakeryTicketNumber (makeBakeryData choosingTicket 0) = 0 := by
  decide

variable {t u : Nat}

/-- CPU 1 contends while CPU 0 holds the lock with ticket `t`. -/
theorem contend (h0 : 0 < t) (ht : t ≤ 0x7FFF) :
    run (step .coherent) (pair (makeBakeryData chosenTicket t) 0 (.critical t) .idle)
      [1, 1, 1, 1] = some (pair (makeBakeryData chosenTicket t)
        (makeBakeryData chosenTicket (t + 1)) (.critical t) (.poll 0 (t + 1))) := by
  have hnum := bakeryTicketNumber_make (show chosenTicket < 2 by decide) ht
  simp [run, step, next, scanStep, hnum, ticketNumber_choosing, h0]

/-- CPU 0 releases the lock and CPU 1 takes it. -/
theorem handover (w₀ w₁ : Nat) :
    run (step .coherent) (pair w₀ w₁ (.critical t) (.poll 0 u)) [0, 1, 1, 1] =
      some (pair 0 w₁ .idle (.critical u)) := by
  simp [run, step, next, pollStep, bakeryIsChoosing, bakeryTicketNumber, choosingTicket]

/-- CPU 0 contends while CPU 1 holds the lock, and gets it back. -/
theorem handback (h0 : 0 < t) (ht : t ≤ 0x7FFF) :
    run (step .coherent) (pair 0 (makeBakeryData chosenTicket t) .idle (.critical t))
      [0, 0, 0, 0, 1, 0, 0, 0] =
        some (pair (makeBakeryData chosenTicket (t + 1)) 0 (.critical (t + 1)) .idle) := by
  have hnum := bakeryTicketNumber_make (show chosenTicket < 2 by decide) ht
  simp [run, step, next, scanStep, pollStep, hnum, ticketNumber_choosing, h0,
    show bakeryIsChoosing 0 = false from rfl, show bakeryTicketNumber 0 = 0 from rfl]

/-- With the lock always handed on, CPU 0 gets to hold it with any odd ticket. -/
theorem exists_holder (ht : 2 * t + 1 ≤ 0x7FFF) : ∃ sched, run (step .coherent) (init 2) sched =
      some (pair (makeBakeryData chosenTicket (2 * t + 1)) 0 (.critical (2 * t + 1)) .idle) := by
  induction t with
  | zero =>
    refine ⟨[0, 0, 0, 0, 0, 0, 0], ?_⟩
    have hinit : init 2 = pair 0 0 .idle .idle := by
      simp only [init, pair, mk.injEq]
      constructor <;> funext i <;> fin_cases i <;> rfl
    rw [hinit]
    simp [run, step, next, scanStep, pollStep, bakeryIsChoosing, bakeryTicketNumber,
      choosingTicket, makeBakeryData]
  | succ t ih =>
    obtain ⟨sched, hrun⟩ := ih (by omega)
    have hnext := run_trans (run_trans hrun (contend (by omega) (by omega))) (handover _ _)
    exact ⟨_, run_trans hnext (handback (by omega) (by omega))⟩

/-- Two CPUs that take turns without a pause: after `0x7FFF` tickets the next one is
`0x8000`, which the word of the CPU cannot hold. The CPU goes on with a word that says
it does not contend. -/
theorem bakery_ticket_overflow :
    ∃ sched s, run (step .coherent) (State.init 2) sched = some s ∧ ¬ TicketsDecode s ∧
      ∃ i, (s.pc i).ticket = 0x8000 ∧ bakeryTicketNumber (s.lockData i) = 0 := by
  obtain ⟨sched, hrun⟩ := exists_holder (t := 0x3FFF) le_rfl
  refine ⟨_, _, run_trans hrun (contend (by decide) (by decide)), fun h => ?_, 1, rfl, ?_⟩
  · exact absurd (h 1 trivial).1 (by decide)
  · decide

end TrustedFirmware.Bakery
