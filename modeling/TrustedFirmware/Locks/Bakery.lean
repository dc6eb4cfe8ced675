import Mathlib.Data.Nat.Bitwise
import TrustedFirmware.Lib.Run

/-!
# The bakery lock (`include/lib/bakery_lock.h`, `lib/locks/bakery/`)

The lock at the granularity of its loads and stores, under sequentially consistent
memory.

A lock is one 16-bit word for each CPU: bit 0 is the *choosing* flag, bits 1 to
15 the ticket. Each CPU runs `bakery_lock_get`, then its critical section, then
`bakery_lock_release`; a step of the system is one load or store of one CPU (or
the local move between two of them), so a run is a list of CPUs, in the order
in which they step. A CPU that never appears again has crashed or stays where it
is; a spinning CPU steps to the same state.

Two variants of the algorithm exist. With the lock in coherent memory
(`bakery_lock_coherent.c`) the ticket loop also reads the CPU's own word; in
normal memory (`bakery_lock_normal.c`) it skips it.
-/

namespace TrustedFirmware.Bakery

open Lib Function

/-! ### The packed word -/

/-- Convert a ticket to a priority; the lower value wins. -/
def bakeryGetPriority (t pos : Nat) : Nat := (t <<< 8) ||| pos

def choosingTicket : Nat := 1
def chosenTicket : Nat := 0

def bakeryIsChoosing (info : Nat) : Bool := info &&& 1 = choosingTicket

def bakeryTicketNumber (info : Nat) : Nat := (info >>> 1) &&& 0x7FFF

/-- The word stored for a CPU. The cast to `uint16_t` drops what the ticket
field cannot hold. -/
def makeBakeryData (choosing num : Nat) : Nat :=
  ((choosing &&& 1) ||| (num <<< 1)) % 2 ^ 16

variable {t : Nat}

theorem bakeryGetPriority_eq {pos : Nat} (hpos : pos < 256) :
    bakeryGetPriority t pos = 256 * t + pos := by
  rw [bakeryGetPriority, ← Nat.shiftLeft_add_eq_or_of_lt (by simpa using hpos), Nat.shiftLeft_eq]
  omega

theorem makeBakeryData_eq {choosing num : Nat} (hc : choosing < 2) (hnum : num ≤ 0x7FFF) :
    makeBakeryData choosing num = 2 * num + choosing := by
  have hand : choosing &&& 1 = choosing := by
    rw [Nat.and_one_is_mod, Nat.mod_eq_of_lt hc]
  rw [makeBakeryData, hand, Nat.or_comm, ← Nat.shiftLeft_add_eq_or_of_lt (by simpa using hc),
    Nat.shiftLeft_eq]
  omega

theorem bakeryTicketNumber_make {choosing num : Nat} (hc : choosing < 2) (hnum : num ≤ 0x7FFF) :
    bakeryTicketNumber (makeBakeryData choosing num) = num := by
  rw [makeBakeryData_eq hc hnum, bakeryTicketNumber, Nat.shiftRight_eq_div_pow,
    show (0x7FFF : Nat) = 2 ^ 15 - 1 from rfl, Nat.and_two_pow_sub_one_eq_mod]
  omega

theorem bakeryIsChoosing_make {choosing num : Nat} (hc : choosing < 2) (hnum : num ≤ 0x7FFF) :
    bakeryIsChoosing (makeBakeryData choosing num) = (choosing == 1) := by
  rw [makeBakeryData_eq hc hnum, bakeryIsChoosing, Nat.and_one_is_mod, choosingTicket]
  rcases (by omega : choosing = 0 ∨ choosing = 1) with rfl | rfl
  · simp
  · simp

/-! ### The machine -/

/-- Where the lock lives, and so which of the two source files is running. -/
inductive Variant
  | coherent
  | normal
  deriving Repr, DecidableEq

/-- The position of a CPU in the code, with its local variables. -/
inductive Pc
  /-- Outside the lock functions, not holding the lock. -/
  | idle
  /-- In the loop of `bakery_get_ticket`, about to read the word of `they`. Once
  `they` has passed every CPU, about to store the computed ticket. -/
  | scan (they myTicket : Nat)
  /-- In the loop of `bakery_lock_get`, about to read whether `they` is choosing. -/
  | poll (they myTicket : Nat)
  /-- In its inner loop, waiting for the ticket of `they` to change. -/
  | spin (they myTicket theirTicket : Nat)
  /-- Between `bakery_lock_get` and `bakery_lock_release`. -/
  | critical (myTicket : Nat)
  deriving Repr, DecidableEq

/-- One lock shared by `n` CPUs, `n` being `BAKERY_LOCK_MAX_CPUS`. -/
structure State (n : Nat) where
  lockData : Fin n → Nat
  pc : Fin n → Pc

/-- The lock words start zeroed (`.bss` or coherent memory) and every CPU outside. -/
def State.init (n : Nat) : State n := ⟨fun _ => 0, fun _ => .idle⟩

def State.setPc {n : Nat} (s : State n) (me : Fin n) (p : Pc) : State n :=
  { s with pc := update s.pc me p }

/-- A store of CPU `me` to its own word; no code stores to another CPU's. -/
def State.store {n : Nat} (s : State n) (me : Fin n) (info : Nat) (p : Pc) : State n :=
  { lockData := update s.lockData me info, pc := update s.pc me p }

/-- One step of `bakery_get_ticket`'s loop: the maximum of the tickets read so far. -/
def scanStep {n : Nat} (v : Variant) (s : State n) (me : Fin n) (they myTicket : Nat) : State n :=
  if h : they < n then
    if v = .normal ∧ they = me.val then s.setPc me (.scan (they + 1) myTicket)
    else
      let theirTicket := bakeryTicketNumber (s.lockData ⟨they, h⟩)
      s.setPc me (.scan (they + 1) (if theirTicket > myTicket then theirTicket else myTicket))
  else s.store me (makeBakeryData chosenTicket (myTicket + 1)) (.poll 0 (myTicket + 1))

/-- One step of `bakery_lock_get`'s loop over the other CPUs. -/
def pollStep {n : Nat} (s : State n) (me : Fin n) (they myTicket : Nat) : State n :=
  if h : they < n then
    if they = me.val then s.setPc me (.poll (they + 1) myTicket)
    else
      let theirData := s.lockData ⟨they, h⟩
      let theirTicket := bakeryTicketNumber theirData
      if bakeryIsChoosing theirData then s
      else if theirTicket ≠ 0 ∧
          bakeryGetPriority theirTicket they < bakeryGetPriority myTicket me.val then
        s.setPc me (.spin they myTicket theirTicket)
      else s.setPc me (.poll (they + 1) myTicket)
  else s.setPc me (.critical myTicket)

/-- One step of the wait for `they`'s ticket to change. -/
def spinStep {n : Nat} (s : State n) (me : Fin n) (they myTicket theirTicket : Nat) : State n :=
  if h : they < n then
    if theirTicket = bakeryTicketNumber (s.lockData ⟨they, h⟩) then s
    else s.setPc me (.poll (they + 1) myTicket)
  else s

/-- What the next step of CPU `me` does. -/
def next {n : Nat} (v : Variant) (s : State n) (me : Fin n) : State n :=
  match s.pc me with
  | .idle => s.store me (makeBakeryData choosingTicket 0) (.scan 0 0)
  | .scan they myTicket => scanStep v s me they myTicket
  | .poll they myTicket => pollStep s me they myTicket
  | .spin they myTicket theirTicket => spinStep s me they myTicket theirTicket
  | .critical _ => s.store me 0 .idle

/-- The lock as a machine driven by the CPU that steps; every CPU can always step. -/
def step {n : Nat} (v : Variant) (s : State n) (me : Fin n) : Option (State n) :=
  some (next v s me)

/-- The ticket that CPU `me` is about to store, if it is at that store. -/
def computedTicket {n : Nat} (s : State n) (me : Fin n) : Option Nat :=
  match s.pc me with
  | .scan they myTicket => if they < n then none else some (myTicket + 1)
  | _ => none

/-- No ticket that is about to be stored exceeds the 15-bit field. -/
def TicketsFit {n : Nat} (s : State n) : Prop :=
  ∀ me, ∀ t ∈ computedTicket s me, t ≤ 0x7FFF
  deriving Decidable

/-! ### The invariant

A CPU's word is a function of its position, so the invariant only speaks of
positions. CPU `i` has *passed* `j` when its loop in `bakery_lock_get` is beyond
`j`. The heart of the proof is `Behind`: once `i` has passed `j`, CPU `j` is not
contending, or it holds a lower priority, or it is still choosing and the
maximum it has computed already accounts for `i`'s ticket (if its scan is past
`i`; otherwise it is yet to read it). -/

/-- The ticket a position holds in the CPU's word, `0` when it holds none. -/
def Pc.ticket : Pc → Nat
  | .idle | .scan _ _ => 0
  | .poll _ t | .spin _ t _ | .critical t => t

/-- The word a CPU at this position has stored. -/
def Pc.word : Pc → Nat
  | .idle => 0
  | .scan _ _ => makeBakeryData choosingTicket 0
  | .poll _ t | .spin _ t _ | .critical t => makeBakeryData chosenTicket t

/-- The positions after the doorway: the CPU's word holds its ticket. -/
def Pc.Holds : Pc → Prop
  | .idle | .scan _ _ => False
  | .poll _ _ | .spin _ _ _ | .critical _ => True

/-- The loop of `bakery_lock_get` is beyond CPU `j`. -/
def Pc.Passed (p : Pc) (j : Nat) : Prop :=
  match p with
  | .idle | .scan _ _ => False
  | .poll they _ | .spin they _ _ => j < they
  | .critical _ => True

/-- CPU `j` at position `p` cannot overtake CPU `i`, which holds ticket `ti`. -/
def Pc.Behind (p : Pc) (j i ti : Nat) : Prop :=
  match p with
  | .idle => True
  | .scan they t => i < they → ti ≤ t
  | .poll _ t | .spin _ t _ | .critical t => bakeryGetPriority ti i < bakeryGetPriority t j

structure Inv {n : Nat} (s : State n) : Prop where
  /-- Each word is what its CPU last stored. -/
  word : ∀ i, s.lockData i = (s.pc i).word
  /-- Tickets fit their field. -/
  ticket_le : ∀ i, (s.pc i).ticket ≤ 0x7FFF
  /-- A waiting CPU or one in its critical section has a ticket. -/
  ticket_pos : ∀ i, (s.pc i).Holds → (s.pc i).ticket ≠ 0
  passed : ∀ i j : Fin n, i ≠ j → (s.pc i).Passed j → (s.pc j).Behind j i (s.pc i).ticket
  /-- A CPU that waits for `j`'s ticket to change waits for the ticket that `j`
  still holds, unless `j` has released it and is now behind. -/
  spin : ∀ (i j : Fin n) (t tt : Nat), s.pc i = .spin j t tt →
    i ≠ j ∧ ((s.pc j).Behind j i t ∨ (tt ≠ 0 ∧ (s.pc j).ticket = tt))

theorem Inv.init (n : Nat) : Inv (State.init n) where
  word _ := rfl
  ticket_le _ := Nat.zero_le _
  ticket_pos _ h := h.elim
  passed _ _ _ h := h.elim
  spin i j t tt h := by simp [State.init] at h

variable {p : Pc}

theorem Pc.ticketNumber_word (h : p.ticket ≤ 0x7FFF) : bakeryTicketNumber p.word = p.ticket := by
  cases p with
  | idle => rfl
  | scan => exact bakeryTicketNumber_make (by decide) (by decide)
  | poll | spin | critical => exact bakeryTicketNumber_make (by decide) h

variable {n : Nat} {me : Fin n}

variable {s : State n}

/-- The ticket read from a CPU's word is the one its position holds. -/
theorem Inv.ticketNumber (h : Inv s) (i : Fin n) :
    bakeryTicketNumber (s.lockData i) = (s.pc i).ticket := by
  rw [h.word i]
  exact Pc.ticketNumber_word (h.ticket_le i)

/-- A word without the choosing flag is that of a CPU that holds a ticket or does
not contend. -/
theorem Inv.not_scan (h : Inv s) {i : Fin n}
    (hc : bakeryIsChoosing (s.lockData i) = false) (they t : Nat) : s.pc i ≠ .scan they t := by
  intro hp
  rw [h.word i, hp, Pc.word, bakeryIsChoosing_make (by decide) (by decide)] at hc
  simp [choosingTicket] at hc

/-- **One CPU moves.** What the other CPUs rely on when CPU `me` moves to position
`p`: whom `me` has passed is behind it (`hfwd`), whoever was ahead of `me` stays
ahead (`hbwd`), and a ticket `me` holds only changes by being released (`hheld`). -/
theorem Inv.store (h : Inv s)
    (hle : p.ticket ≤ 0x7FFF) (hpos : p.Holds → p.ticket ≠ 0)
    (hfwd : ∀ j : Fin n, j ≠ me → p.Passed j → (s.pc j).Behind j me p.ticket)
    (hbwd : ∀ i : Fin n, i ≠ me → (s.pc me).Behind me i (s.pc i).ticket →
      p.Behind me i (s.pc i).ticket)
    (hheld : (s.pc me).ticket ≠ 0 → p.ticket = (s.pc me).ticket ∨ p = .idle)
    (hspin : ∀ (j : Fin n) (t tt : Nat), p = .spin j t tt →
      me ≠ j ∧ ((s.pc j).Behind j me t ∨ (tt ≠ 0 ∧ (s.pc j).ticket = tt))) :
    Inv (s.store me p.word p) := by
  refine ⟨fun i => ?_, fun i => ?_, fun i => ?_, fun i j hij => ?_, fun i j t tt => ?_⟩ <;>
    simp [State.store]
  · by_cases hi : i = me
    · subst hi; simp
    · simpa [hi] using h.word i
  · by_cases hi : i = me
    · subst hi; simpa using hle
    · simpa [hi] using h.ticket_le i
  · by_cases hi : i = me
    · subst hi; simpa using hpos
    · simpa [hi] using h.ticket_pos i
  · obtain rfl | hi := eq_or_ne i me
    · simpa [hij.symm] using hfwd j (hij.symm)
    · obtain rfl | hj := eq_or_ne j me
      · simpa [hi] using fun hp => hbwd i hi (h.passed i j hij hp)
      · simpa [hi, hj] using h.passed i j hij
  · obtain rfl | hi := eq_or_ne i me
    · rw [update_self]
      intro hp
      obtain ⟨hne, hor⟩ := hspin j t tt hp
      exact ⟨hne, by simpa [hne.symm] using hor⟩
    · rw [update_of_ne hi]
      intro hp
      obtain ⟨hne, hor⟩ := h.spin i j t tt hp
      refine ⟨hne, ?_⟩
      obtain rfl | hj := eq_or_ne j me
      · have ht : (s.pc i).ticket = t := by rw [hp]; rfl
        rw [update_self]
        rcases hor with hb | ⟨htt, htk⟩
        · exact .inl (by simpa [ht] using hbwd i hi (by simpa [ht] using hb))
        · rcases hheld (by rw [htk]; exact htt) with hk | rfl
          · exact .inr ⟨htt, hk.trans htk⟩
          · exact .inl trivial
      · simpa [hj] using hor

/-- `Inv.store` for a move that stores nothing: the new position holds the same word. -/
theorem Inv.setPc (h : Inv s)
    (hword : p.word = (s.pc me).word) (hinv : Inv (s.store me p.word p)) :
    Inv (s.setPc me p) := by
  have hsto : s.store me p.word p = s.setPc me p := by
    rw [hword, ← h.word me, State.store, State.setPc, update_eq_self]
  rwa [hsto] at hinv

theorem Pc.Holds.word (hp : p.Holds) : p.word = makeBakeryData chosenTicket p.ticket := by
  cases p with
  | idle | scan => exact hp.elim
  | poll | spin | critical => rfl

theorem Pc.Holds.behind (hp : p.Holds) (j i ti : Nat) :
    p.Behind j i ti ↔ bakeryGetPriority ti i < bakeryGetPriority p.ticket j := by
  cases p with
  | idle | scan => exact hp.elim
  | poll | spin | critical => exact Iff.rfl

/-- **A waiting CPU advances.** It keeps its ticket, so the CPUs that watch it see
no change; all that has to be shown is that the CPUs it newly passes are behind. -/
theorem Inv.advance (h : Inv s)
    (hold : (s.pc me).Holds) (hnew : p.Holds) (ht : p.ticket = (s.pc me).ticket)
    (hfwd : ∀ j : Fin n, j ≠ me → p.Passed j → (s.pc j).Behind j me (s.pc me).ticket)
    (hspin : ∀ (j : Fin n) (t tt : Nat), p = .spin j t tt →
      me ≠ j ∧ ((s.pc j).Behind j me t ∨ (tt ≠ 0 ∧ (s.pc j).ticket = tt))) :
    Inv (s.setPc me p) := by
  refine h.setPc (by rw [hnew.word, hold.word, ht]) (h.store ?_ ?_ ?_ ?_ ?_ hspin)
  · rw [ht]; exact h.ticket_le me
  · intro _; rw [ht]; exact h.ticket_pos me hold
  · intro j hj hp; rw [ht]; exact hfwd j hj hp
  · intro i _ hb
    rw [hnew.behind, ht]
    exact (hold.behind _ _ _).mp hb
  · intro _; exact .inl ht

theorem priority_lt_of_not_lt {ti tj i j : Nat} (hi : i < 256) (hj : j < 256) (hij : i ≠ j)
    (h : ¬ bakeryGetPriority tj j < bakeryGetPriority ti i) :
    bakeryGetPriority ti i < bakeryGetPriority tj j := by
  rw [bakeryGetPriority_eq hi, bakeryGetPriority_eq hj] at *
  omega

theorem priority_lt_succ {ti tj i j : Nat} (hi : i < 256) (hj : j < 256) (h : ti ≤ tj) :
    bakeryGetPriority ti i < bakeryGetPriority (tj + 1) j := by
  rw [bakeryGetPriority_eq hi, bakeryGetPriority_eq hj]
  omega

/-! ### Each step keeps the invariant -/

variable {they : Nat}

/-- Entering the doorway: from here on the CPU has read no ticket. -/
theorem Inv.enterDoorway (h : Inv s) (hpc : s.pc me = .idle) :
    Inv (s.store me (makeBakeryData choosingTicket 0) (.scan 0 0)) := by
  refine h.store (p := .scan 0 0) (Nat.zero_le _) (fun hp => hp.elim) (fun _ _ hp => hp.elim)
    ?_ ?_ ?_
  · intro i _ _ hi
    exact absurd hi (Nat.not_lt_zero _)
  · intro ht
    exact absurd (by rw [hpc]; rfl) ht
  · intro j t tt hp
    cases hp

/-- Releasing: a CPU that does not contend is behind every other. -/
theorem Inv.release (h : Inv s) : Inv (s.store me 0 .idle) := by
  refine h.store (p := .idle) (Nat.zero_le _) (fun hp => hp.elim) (fun _ _ hp => hp.elim) ?_ ?_ ?_
  · intro _ _ _; trivial
  · intro _; exact .inr rfl
  · intro j t tt hp
    cases hp

/-- Reading one more ticket in the doorway. -/
theorem Inv.scanNext (h : Inv s) {t' : Nat} (hpc : s.pc me = .scan they t)
    (htt : t ≤ t') (hread : ∀ i : Fin n, i ≠ me → i.val = they → (s.pc i).ticket ≤ t') :
    Inv (s.setPc me (.scan (they + 1) t')) := by
  refine h.setPc (by rw [hpc]; rfl) (h.store (Nat.zero_le _) (fun hp => hp.elim)
    (fun _ _ hp => hp.elim) ?_ ?_ ?_)
  · intro i hi hb
    rw [hpc] at hb
    intro hlt
    rcases Nat.lt_succ_iff_lt_or_eq.mp hlt with hlt | heq
    · exact (hb hlt).trans htt
    · exact hread i hi heq
  · intro ht
    exact absurd (by rw [hpc]; rfl) ht
  · intro j u tt hp
    cases hp

/-- Leaving the doorway: the ticket exceeds every ticket read, so whoever was
ahead stays ahead. -/
theorem Inv.publish (hn : n ≤ 256) (h : Inv s) (hpc : s.pc me = .scan they t)
    (hthey : n ≤ they) (hfit : t + 1 ≤ 0x7FFF) :
    Inv (s.store me (makeBakeryData chosenTicket (t + 1)) (.poll 0 (t + 1))) := by
  refine h.store (p := .poll 0 (t + 1)) hfit (fun _ => Nat.succ_ne_zero t)
    (fun _ _ hp => absurd hp (Nat.not_lt_zero _)) ?_ ?_ ?_
  · intro i _ hb
    rw [hpc] at hb
    exact priority_lt_succ (by omega) (by omega) (hb (by omega))
  · intro ht
    exact absurd (by rw [hpc]; rfl) ht
  · intro j u tt hp
    cases hp

theorem Inv.scanStep (hn : n ≤ 256) (v : Variant) (h : Inv s) (hfit : TicketsFit s)
    (hpc : s.pc me = .scan they t) : Inv (scanStep v s me they t) := by
  unfold Bakery.scanStep
  split
  next hthey =>
    split
    next hself =>
      refine h.scanNext hpc le_rfl fun i hi hv => ?_
      exact absurd (Fin.ext (hv.trans hself.2)) hi
    · refine h.scanNext hpc (by split <;> omega) fun i _ hv => ?_
      obtain rfl : i = ⟨they, hthey⟩ := Fin.ext hv
      rw [h.ticketNumber]
      split <;> omega
  next hthey =>
    refine h.publish hn hpc (not_lt.mp hthey) (hfit me _ ?_)
    simp [computedTicket, hpc, hthey]

/-- Leaving `they` behind in the wait loop: it is enough that `they` is behind. -/
theorem Inv.pollNext (h : Inv s) (hold : (s.pc me).Holds)
    (hpas : ∀ j : Fin n, j ≠ me → j.val < they → (s.pc j).Behind j me (s.pc me).ticket)
    (hthey : ∀ j : Fin n, j ≠ me → j.val = they → (s.pc j).Behind j me (s.pc me).ticket) :
    Inv (s.setPc me (.poll (they + 1) (s.pc me).ticket)) := by
  refine h.advance hold trivial rfl ?_ (by intro j t tt hp; cases hp)
  intro j hj hlt
  rcases Nat.lt_succ_iff_lt_or_eq.mp hlt with hlt | heq
  · exact hpas j hj hlt
  · exact hthey j hj heq

theorem Inv.pollStep (hn : n ≤ 256) (h : Inv s) (hpc : s.pc me = .poll they t) :
    Inv (pollStep s me they t) := by
  have hold : (s.pc me).Holds := by rw [hpc]; trivial
  obtain rfl : t = (s.pc me).ticket := by rw [hpc]; rfl
  have hpas : ∀ j : Fin n, j ≠ me → j.val < they → (s.pc j).Behind j me (s.pc me).ticket :=
    fun j hj hlt => h.passed me j (hj.symm) (by rw [hpc]; exact hlt)
  unfold Bakery.pollStep
  split
  next hthey =>
    split_ifs with hself
    · exact h.pollNext hold hpas fun j hj hv => absurd (Fin.ext (hv.trans hself)) hj
    · have hne : me ≠ ⟨they, hthey⟩ := fun he => hself (by rw [he])
      dsimp only
      rw [h.ticketNumber]
      by_cases hc : bakeryIsChoosing (s.lockData ⟨they, hthey⟩) = true
      · rw [if_pos hc]; exact h
      · rw [if_neg hc]
        have hscan := h.not_scan (by simpa using hc)
        split
        next hprio =>
          refine h.advance hold trivial rfl hpas ?_
          intro j u tt hp
          simp only [Pc.spin.injEq] at hp
          obtain ⟨hj, -, rfl⟩ := hp
          obtain rfl : j = ⟨they, hthey⟩ := Fin.ext hj.symm
          exact ⟨hne, .inr ⟨hprio.1, rfl⟩⟩
        next hprio =>
          refine h.pollNext hold hpas fun j hj hv => ?_
          obtain rfl : j = ⟨they, hthey⟩ := Fin.ext hv
          -- The word read is that of a CPU that does not contend, or one with a ticket.
          cases hp : s.pc ⟨they, hthey⟩ with
          | idle => trivial
          | scan y u => exact absurd hp (hscan y u)
          | _ =>
            rw [← hp]
            have hj : (s.pc ⟨they, hthey⟩).Holds := by rw [hp]; trivial
            rw [hj.behind]
            refine priority_lt_of_not_lt (by omega) (by omega) (fun he => hself he.symm) ?_
            exact fun hlt => hprio ⟨h.ticket_pos _ hj, hlt⟩
  next hthey =>
    refine h.advance hold trivial rfl (fun j hj _ => hpas j hj (by omega)) ?_
    intro j u tt hp
    cases hp

theorem Inv.spinStep (h : Inv s) {tt : Nat} (hpc : s.pc me = .spin they t tt) :
    Inv (spinStep s me they t tt) := by
  have hold : (s.pc me).Holds := by rw [hpc]; trivial
  obtain rfl : t = (s.pc me).ticket := by rw [hpc]; rfl
  unfold Bakery.spinStep
  by_cases hthey : they < n
  · rw [dif_pos hthey]
    split
    · exact h
    next hchg =>
      refine h.pollNext hold ?_ fun j hj hv => ?_
      · exact fun j hj hlt => h.passed me j (hj.symm) (by rw [hpc]; exact hlt)
      · obtain rfl : j = ⟨they, hthey⟩ := Fin.ext hv
        rcases (h.spin me ⟨they, hthey⟩ _ tt hpc).2 with hb | ⟨-, htk⟩
        · exact hb
        · exact absurd ((h.ticketNumber _).trans htk).symm hchg
  · rw [dif_neg hthey]; exact h

theorem Inv.next (hn : n ≤ 256) (v : Variant) (h : Inv s) (hfit : TicketsFit s) (me : Fin n) :
    Inv (next v s me) := by
  unfold Bakery.next
  split
  next hpc => exact h.enterDoorway hpc
  next hpc => exact h.scanStep hn v hfit hpc
  next hpc => exact h.pollStep hn hpc
  next hpc => exact h.spinStep hpc
  · exact h.release

/-! ### Mutual exclusion -/

/-- Two CPUs never pass each other. -/
theorem Inv.not_passed {s : State n} (h : Inv s) {i j : Fin n} (hij : i ≠ j)
    (hi : (s.pc i).Passed j) : ¬ (s.pc j).Passed i := by
  intro hj
  have hbi := h.passed i j hij hi
  have hbj := h.passed j i (hij.symm) hj
  have holds : ∀ {p : Pc} {k : Nat}, p.Passed k → p.Holds := by
    intro p k hp
    cases p with
    | idle | scan => exact hp
    | _ => trivial
  rw [(holds hj).behind] at hbi
  rw [(holds hi).behind] at hbj
  exact absurd hbi (lt_asymm hbj)

/-- **Mutual exclusion of the bakery lock.** For up to 256 CPUs and every
interleaving of their loads and stores in which no computed ticket exceeds the
15-bit field: no two CPUs are in the critical section at once, and a CPU whose
wait loop is past `j` (in particular because it saw `j`'s ticket change, however
often `j` has released and contended again) excludes `j` from the critical
section until it releases. -/
theorem bakery_mutual_exclusion {n : Nat} (hn : n ≤ 256) (v : Variant) {sched : List (Fin n)}
    {s : State n} (hfit : Along (step v) (fun s _ => TicketsFit s) (State.init n) sched)
    (hrun : run (step v) (State.init n) sched = some s) :
    (∀ i j ti tj, s.pc i = .critical ti → s.pc j = .critical tj → i = j) ∧
    (∀ i j : Fin n, i ≠ j → (s.pc i).Passed j → ∀ tj, s.pc j ≠ .critical tj) := by
  have h : Inv s := by
    refine run_invariant_along (fun s me s' hs hfit h => ?_) (Inv.init n) hfit hrun
    obtain rfl : Bakery.next v s me = s' := by simpa [step] using h
    exact hs.next hn v hfit me
  have hexcl : ∀ i j : Fin n, i ≠ j → (s.pc i).Passed j → ∀ tj, s.pc j ≠ .critical tj := by
    intro i j hij hp tj hj
    exact h.not_passed hij hp (by rw [hj]; trivial)
  refine ⟨fun i j ti tj hi hj => ?_, hexcl⟩
  by_contra hij
  exact hexcl i j hij (by rw [hi]; trivial) tj hj

/-- CPU 0 takes the lock, then CPU 1 contends and ends up waiting for its ticket. -/
def contendedSched : List (Fin 2) := List.replicate 7 0 ++ List.replicate 5 1

theorem bakery_mutual_exclusion_contended :
    ∃ s, run (step .coherent) (State.init 2) contendedSched = some s ∧
      s.pc 0 = .critical 1 ∧ s.pc 1 = .spin 0 2 1 ∧ ∀ tj, s.pc 1 ≠ .critical tj := by
  refine exists_some_imp (q := fun s => s.pc 0 = .critical 1 ∧ s.pc 1 = .spin 0 2 1) (by decide)
    fun s hs ⟨h0, h1⟩ => ⟨h0, h1, ?_⟩
  exact (bakery_mutual_exclusion (by decide) .coherent (by decide) hs).2 0 1 (by decide)
    (by rw [h0]; trivial)

end TrustedFirmware.Bakery
